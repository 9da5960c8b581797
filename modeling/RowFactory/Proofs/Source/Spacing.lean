import RowFactory.Proofs.Source.TokenText

namespace RowFactory

/-- Characters that stand beside each other in an operator. -/
def operatorPairs : List (Char × Char) :=
  [('&', '&'), ('|', '|'), ('<', '<'), ('>', '>'), ('=', '='), ('!', '='), ('<', '='), ('>', '='),
    ('+', '='), ('-', '='), ('*', '='), ('/', '='), ('%', '='), ('^', '='), ('&', '='),
    ('|', '='), ('.', '.'), ('.', '='), (':', ':'), ('-', '>'), ('=', '>')]

namespace Lexeme

/-- The two tokens are characters of one operator. -/
def joins : Lexeme → Lexeme → Bool
  | .punct c _, .punct d _ => operatorPairs.contains (c, d)
  | _, _ => false

def isJoint : Lexeme → Bool
  | .punct _ joint => joint
  | _ => false

/-- Only what belongs together stays joint. -/
def settle : List Lexeme → List Lexeme
  | [] => []
  | .punct c joint :: ls =>
    .punct c (joint && ls.head?.any (joins (.punct c joint))) :: settle ls
  | l :: ls => l :: settle ls

end Lexeme

namespace Glyph

def isJoint : Glyph → Bool
  | .lexeme l => l.isJoint
  | _ => false

def joins : Glyph → Glyph → Bool
  | .lexeme l, .lexeme m => l.joins m
  | _, _ => false

/-- The glyphs stay apart, and are joint just where they belong together. -/
def meets (a b : Glyph) : Prop := a.mayTouch b ∧ a.isJoint = a.joins b

/-- Glyphs that are spelled and meet one another. -/
structure Fits (gs : List Glyph) : Prop where
  spelled : ∀ g ∈ gs, g.IsSpelled
  meet : gs.IsChain meets
  last : ∀ g ∈ gs.getLast?, g.isJoint = false

/-- The tokens among the glyphs, as they are. -/
def lexemes : List Glyph → List Lexeme
  | [] => []
  | .lexeme l :: gs => l :: lexemes gs
  | .blank :: gs | .lineEnd :: gs => lexemes gs

theorem fits_nil : Fits [] := ⟨by simp, .nil, by simp⟩

theorem Fits.cons {g : Glyph} {gs : List Glyph} (hg : g.IsSpelled) (h : Fits gs)
    (hmeets : ∀ b ∈ gs.head?, g.meets b) (hlast : gs = [] → g.isJoint = false) :
    Fits (g :: gs) := by
  refine ⟨?_, List.isChain_cons.mpr ⟨hmeets, h.meet⟩, ?_⟩
  · rintro b (_ | ⟨_, hb⟩)
    · exact hg
    · exact h.spelled b hb
  · cases gs with
    | nil => simpa using hlast rfl
    | cons b gs => simpa using h.last

theorem Fits.of_cons {g : Glyph} {gs : List Glyph} (h : Fits (g :: gs)) : Fits gs := by
  refine ⟨fun b hb => h.spelled b (by simp [hb]), (List.isChain_cons.mp h.meet).2, ?_⟩
  cases gs with
  | nil => simp
  | cons b gs => simpa using h.last

theorem Fits.readable {gs : List Glyph} (h : Fits gs) : Readable gs :=
  ⟨h.spelled, h.meet.imp fun _ _ hmeets => hmeets.1⟩

/-- Reading makes a character joint wherever it touches another one; settling keeps it so where it
meets one of its own operator. -/
theorem joint_of_meets {c : Char} {joint : Bool} {gs : List Glyph}
    (hmeets : ∀ b ∈ gs.head?, (Glyph.lexeme (.punct c joint)).meets b)
    (hlast : gs = [] → joint = false) (raw : Bool) :
    (gs.head?.any isPunct && (read gs).head?.any (Lexeme.joins (.punct c raw))) = joint := by
  match gs with
  | [] => simpa using (hlast rfl).symm
  | .blank :: gs | .lineEnd :: gs => exact (hmeets _ rfl).2.symm
  | .lexeme l :: gs =>
    have hjoint := (hmeets _ rfl).2
    cases l with
    | punct d next => exact hjoint.symm
    | _ => exact hjoint.symm

theorem settle_read {gs : List Glyph} (h : Fits gs) : Lexeme.settle (read gs) = lexemes gs := by
  induction gs with
  | nil => rfl
  | cons g gs ih =>
    have htail := ih h.of_cons
    match g with
    | .blank | .lineEnd => exact htail
    | .lexeme (.ident _) | .lexeme (.lifetime _) | .lexeme (.literal _) | .lexeme (.opening _)
    | .lexeme (.closing _) => exact congrArg _ htail
    | .lexeme (.punct c joint) =>
      have hjoint := joint_of_meets (List.isChain_cons.mp h.meet).1
        (fun hnil => h.last (.lexeme (.punct c joint)) (by simp [hnil])) (gs.head?.any isPunct)
      rw [lexemes, ← htail]
      exact congrArg (fun j => Lexeme.punct c j :: Lexeme.settle (read gs)) hjoint

/-- A text of fitting glyphs is read, up to spacing, as the tokens among them. -/
theorem exists_lex?_text {gs : List Glyph} (h : Fits gs) :
    ∃ ls, lex? (text gs) = some ls ∧ Lexeme.settle ls = lexemes gs :=
  ⟨read gs, lex?_text h.readable, settle_read h⟩

end Glyph

end RowFactory
