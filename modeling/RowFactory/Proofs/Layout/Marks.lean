import RowFactory.Proofs.Factory.Compact
import RowFactory.Proofs.Layout.Groups

namespace RowFactory

namespace Mark

/-- The tokens with nothing between them. -/
def ofTokens (ts : List Token) : List Mark := (Token.flatten ts).map fun l => .glyph (.lexeme l)

def blank : Mark := .glyph .blank

def opening (d : Delimiter) : Mark := .glyph (.lexeme (.opening d))

def closing (d : Delimiter) : Mark := .glyph (.lexeme (.closing d))

@[simp] theorem glyph_opening (d : Delimiter) : glyph (.lexeme (.opening d)) = opening d := rfl

@[simp] theorem glyph_closing (d : Delimiter) : glyph (.lexeme (.closing d)) = closing d := rfl

@[simp] theorem strokes_append (ms ns : List Mark) : strokes (ms ++ ns) = strokes ms ++ strokes ns := by
  induction ms with
  | nil => rfl
  | cons m ms ih => cases m <;> simp [strokes, ih]

@[simp] theorem lexemes_append (ms ns : List Mark) : lexemes (ms ++ ns) = lexemes ms ++ lexemes ns := by
  induction ms with
  | nil => rfl
  | cons m ms ih =>
    match m with
    | .gap _ | .glyph .blank | .glyph .lineEnd => exact ih
    | .glyph (.lexeme l) => exact congrArg (l :: ·) ih

@[simp] theorem lexemes_ofTokens (ts : List Token) : lexemes (ofTokens ts) = Token.flatten ts := by
  have hmap (ls : List Lexeme) : lexemes (ls.map fun l => .glyph (.lexeme l)) = ls := by
    induction ls with
    | nil => rfl
    | cons l ls ih => exact congrArg (l :: ·) ih
  exact hmap _

theorem ofTokens_nil : ofTokens [] = [] := rfl

theorem ofTokens_cons (t : Token) (ts : List Token) :
    ofTokens (t :: ts) = (t.lexemes.map fun l => glyph (.lexeme l)) ++ ofTokens ts := by
  simp [ofTokens, Token.flatten]

section Simp

variable {ms : List Mark} {ts : List Token}

@[simp] theorem strokes_nil : strokes [] = [] := rfl

@[simp] theorem strokes_gap_cons (g : Gap) : strokes (.gap g :: ms) = .gap g :: strokes ms := rfl

@[simp] theorem strokes_blank_cons : strokes (blank :: ms) = .char ' ' :: strokes ms := rfl

@[simp] theorem strokes_opening_cons (d : Delimiter) :
    strokes (opening d :: ms) = .char d.openChar :: strokes ms := rfl

@[simp] theorem strokes_closing_cons (d : Delimiter) :
    strokes (closing d :: ms) = .char d.closeChar :: strokes ms := rfl

@[simp] theorem strokes_ofTokens_nil : strokes (ofTokens []) = [] := rfl

@[simp] theorem strokes_ofTokens_word (w : String) :
    strokes (ofTokens (Token.word w :: ts)) = w.toList.map .char ++ strokes (ofTokens ts) := rfl

@[simp] theorem strokes_ofTokens_ident (i : Ident) :
    strokes (ofTokens (.ident i :: ts)) = i.text.toList.map .char ++ strokes (ofTokens ts) := rfl

@[simp] theorem strokes_ofTokens_punct (c : Char) (joint : Bool) :
    strokes (ofTokens (.punct c joint :: ts)) = .char c :: strokes (ofTokens ts) := rfl

@[simp] theorem strokes_ofTokens_string (content : String) :
    strokes (ofTokens (Token.string content :: ts)) =
      (Token.string content).text.toList.map .char ++ strokes (ofTokens ts) := rfl

@[simp] theorem strokes_ofTokens_group (d : Delimiter) (body : List Token) :
    strokes (ofTokens (.group d body :: ts)) =
      .char d.openChar :: strokes (ofTokens body) ++ .char d.closeChar :: strokes (ofTokens ts) := by
  simp [ofTokens, Token.flatten, Token.lexemes, strokes_append]

@[simp] theorem next?_glyph_cons (g : Glyph) : next? (.glyph g :: ms) = some g := rfl

@[simp] theorem next?_gap_cons (g : Gap) :
    next? (.gap g :: ms) = if g.blanks = 0 then next? ms else none := rfl

@[simp] theorem next?_blank_cons : next? (blank :: ms) = some .blank := rfl

@[simp] theorem next?_opening_cons (d : Delimiter) :
    next? (opening d :: ms) = some (.lexeme (.opening d)) := rfl

@[simp] theorem next?_closing_cons (d : Delimiter) :
    next? (closing d :: ms) = some (.lexeme (.closing d)) := rfl

@[simp] theorem startsGap_glyph_cons (g : Glyph) : startsGap (.glyph g :: ms) = false := rfl

@[simp] theorem lexemes_nil : lexemes [] = [] := rfl

@[simp] theorem lexemes_lexeme_cons (l : Lexeme) :
    lexemes (.glyph (.lexeme l) :: ms) = l :: lexemes ms := rfl

@[simp] theorem lexemes_gap_cons (g : Gap) : lexemes (.gap g :: ms) = lexemes ms := rfl

@[simp] theorem lexemes_blank_cons : lexemes (blank :: ms) = lexemes ms := rfl

@[simp] theorem lexemes_opening_cons (d : Delimiter) :
    lexemes (opening d :: ms) = .opening d :: lexemes ms := rfl

@[simp] theorem lexemes_closing_cons (d : Delimiter) :
    lexemes (closing d :: ms) = .closing d :: lexemes ms := rfl

end Simp

/-- What may stand after a name: it neither goes on with it nor makes something else of it. -/
def FollowsName (ms : List Mark) : Prop :=
  ∀ b ∈ next? ms, b.isWordy = false ∧ ∀ joint, b ≠ .lexeme (.punct '#' joint)

attribute [simp] Glyph.isWordy Lexeme.isWordy Lexeme.endsList

section Joins

variable {c : Char} {joint : Bool}

@[simp] theorem joins_blank : (Glyph.lexeme (.punct c joint)).joins .blank = false := rfl

@[simp] theorem joins_punct (d : Char) (after : Bool) :
    (Glyph.lexeme (.punct c joint)).joins (.lexeme (.punct d after)) =
      operatorPairs.contains (c, d) := rfl

@[simp] theorem joins_ident (i : Ident) :
    (Glyph.lexeme (.punct c joint)).joins (.lexeme (.ident i)) = false := rfl

@[simp] theorem joins_literal (text : String) :
    (Glyph.lexeme (.punct c joint)).joins (.lexeme (.literal text)) = false := rfl

@[simp] theorem joins_opening (d : Delimiter) :
    (Glyph.lexeme (.punct c joint)).joins (.lexeme (.opening d)) = false := rfl

@[simp] theorem joins_closing (d : Delimiter) :
    (Glyph.lexeme (.punct c joint)).joins (.lexeme (.closing d)) = false := rfl

end Joins

section Sound

variable {ms : List Mark}

@[simp] theorem followsName_glyph_cons {g : Glyph} :
    FollowsName (.glyph g :: ms) ↔
      g.isWordy = false ∧ ∀ joint, g ≠ .lexeme (.punct '#' joint) := by
  simp [FollowsName]

@[simp] theorem followsName_blank_cons : FollowsName (blank :: ms) := by simp [FollowsName]

@[simp] theorem followsName_opening_cons {d : Delimiter} : FollowsName (opening d :: ms) := by
  simp [FollowsName]

@[simp] theorem followsName_closing_cons {d : Delimiter} : FollowsName (closing d :: ms) := by
  simp [FollowsName]

@[simp] theorem followsName_gap_cons {g : Gap} :
    FollowsName (.gap g :: ms) ↔ (g.blanks = 0 → FollowsName ms) := by
  by_cases h : g.blanks = 0 <;> simp [FollowsName, h]

@[simp] theorem sound_nil : Sound [] := trivial

@[simp] theorem sound_gap_cons {g : Gap} (hcomma : g.comma = false) :
    Sound (.gap g :: ms) ↔ Sound ms := by
  simp [Sound, hcomma]

@[simp] theorem sound_gap_closing_cons {g : Gap} :
    Sound (.gap g :: closing .paren :: ms) ↔ Sound (closing .paren :: ms) :=
  and_iff_right fun _ => ⟨_, ms, rfl, rfl⟩

@[simp] theorem sound_gap_angle_cons {g : Gap} {joint : Bool} :
    Sound (.gap g :: .glyph (.lexeme (.punct '>' joint)) :: ms) ↔
      Sound (.glyph (.lexeme (.punct '>' joint)) :: ms) :=
  and_iff_right fun _ => ⟨_, ms, rfl, rfl⟩

@[simp] theorem sound_blank_cons : Sound (blank :: ms) ↔ Sound ms := by
  refine ⟨fun h => h.2.2.2.2, fun h => ⟨trivial, fun b _ => Glyph.meets_of_isBlank rfl b,
    fun _ => rfl, fun l hl => ?_, h⟩⟩
  cases hl

@[simp] theorem sound_opening_cons {d : Delimiter} : Sound (opening d :: ms) ↔ Sound ms := by
  refine ⟨fun h => h.2.2.2.2, fun h => ⟨trivial, fun b _ => ⟨fun hw => ?_, ?_⟩, fun _ => rfl,
    fun l hl hcomma => ?_, h⟩⟩
  · cases hw
  · cases b <;> rfl
  · obtain rfl := Glyph.lexeme.inj hl
    cases hcomma

@[simp] theorem sound_closing_cons {d : Delimiter} : Sound (closing d :: ms) ↔ Sound ms := by
  refine ⟨fun h => h.2.2.2.2, fun h => ⟨trivial, fun b _ => ⟨fun hw => ?_, ?_⟩, fun _ => rfl,
    fun l hl hcomma => ?_, h⟩⟩
  · cases hw
  · cases b <;> rfl
  · obtain rfl := Glyph.lexeme.inj hl
    cases hcomma

theorem sound_wordy_cons {l : Lexeme} (hwordy : l.isWordy) :
    Sound (.glyph (.lexeme l) :: ms) ↔ l.IsSpelled ∧ FollowsName ms ∧ Sound ms := by
  refine ⟨fun h => ⟨h.1, fun b hb => (h.2.1 b hb).1 hwordy, h.2.2.2.2⟩, fun ⟨hl, hnext, h⟩ =>
    ⟨hl, fun b hb => ⟨fun _ => hnext b hb, ?_⟩, fun _ => ?_, fun m hm hcomma => ?_, h⟩⟩
  · cases l <;> first | (cases hwordy; done) | (cases b <;> rfl)
  · cases l <;> first | rfl | cases hwordy
  · obtain rfl := Glyph.lexeme.inj hm
    cases l <;> first | cases hcomma | cases hwordy

@[simp] theorem sound_ident_cons {i : Ident} :
    Sound (.glyph (.lexeme (.ident i)) :: ms) ↔ i.isSpelled ∧ FollowsName ms ∧ Sound ms :=
  sound_wordy_cons rfl

@[simp] theorem sound_literal_cons {content : String} :
    Sound (.glyph (.lexeme (.literal (.ofList (quoteLiteral content.toList)))) :: ms) ↔
      FollowsName ms ∧ Sound ms := by
  rw [sound_wordy_cons rfl]
  exact and_iff_right ⟨content.toList, rfl⟩

@[simp] theorem sound_punct_cons {c : Char} {joint : Bool} :
    Sound (.glyph (.lexeme (.punct c joint)) :: ms) ↔
      c ∈ plainPuncts ∧ (∀ b ∈ next? ms, joint = Glyph.joins (.lexeme (.punct c joint)) b) ∧
        (startsGap ms → joint = false) ∧
        (c = ',' → (lexemes ms).head?.any Lexeme.endsList = false) ∧ Sound ms := by
  refine ⟨fun ⟨hc, hmeets, hgap, hcomma, h⟩ => ⟨hc, fun b hb => (hmeets b hb).2, hgap,
    fun heq => hcomma _ rfl (by simp [Lexeme.isComma, heq]), h⟩,
    fun ⟨hc, hmeets, hgap, hcomma, h⟩ => ⟨hc, fun b hb => ⟨fun hw => ?_, hmeets b hb⟩, hgap,
      fun l hl hl' => hcomma ?_, h⟩⟩
  · cases hw
  · obtain rfl := Glyph.lexeme.inj hl
    simpa [Lexeme.isComma] using hl'

end Sound

theorem operator_colons : Token.operator "::" = [.punct ':' true, .punct ':' false] := rfl

theorem operator_arrow : Token.operator "->" = [.punct '-' true, .punct '>' false] := rfl

/-- The two colons of a path. -/
def colons : List Mark :=
  [.glyph (.lexeme (.punct ':' true)), .glyph (.lexeme (.punct ':' false))]

theorem ofTokens_joined_cons (i j : Ident) (names : List Ident) :
    ofTokens (Segment.joined ((i :: j :: names).map .plain)) =
      .glyph (.lexeme (.ident i)) :: colons ++ ofTokens (Segment.joined ((j :: names).map .plain)) := by
  simp [Segment.joined, Segment.tokens, operator_colons, ofTokens_cons, Token.lexemes, colons]

theorem ofTokens_path (p : Path) :
    ofTokens p.tokens = (if p.leadingColon then colons else []) ++ ofTokens (Segment.joined p.segments) := by
  rw [Path.tokens]
  cases p.leadingColon <;> simp [operatorIf, operator_colons, ofTokens_cons, Token.lexemes, colons]

section Path

variable {names : List Ident} {ms : List Mark} (hnames : ∀ i ∈ names, i.isSpelled)
  (hname : FollowsName ms)
  (hcolon : names = [] → ∀ b ∈ next? ms, Glyph.joins (.lexeme (.punct ':' false)) b = false)
include hcolon

/-- A colon that ends a path's operator does not join what stands after it. -/
theorem joins_colon_names (b : Glyph)
    (hb : b ∈ next? (ofTokens (Segment.joined (names.map .plain)) ++ ms)) :
    Glyph.joins (.lexeme (.punct ':' false)) b = false := by
  match names with
  | [] => exact hcolon rfl b hb
  | [i] | i :: _ :: _ =>
    obtain rfl := Option.some.inj hb
    rfl

theorem sound_colons_append
    (h : Sound (ofTokens (Segment.joined (names.map .plain)) ++ ms)) :
    Sound (colons ++ (ofTokens (Segment.joined (names.map .plain)) ++ ms)) := by
  have hnext := joins_colon_names hcolon
  have hplain : ':' ∈ plainPuncts := by decide
  rw [colons, List.cons_append, List.cons_append, sound_punct_cons, sound_punct_cons]
  refine ⟨hplain, fun b hb => ?_, fun hgap => ?_, (fun hc => ?_), hplain, fun b hb => ?_,
    fun _ => rfl, (fun hc => ?_), h⟩
  · obtain rfl := Option.some.inj hb
    rfl
  · cases hgap
  · cases hc
  · exact (hnext b hb).symm
  · cases hc

include hnames hname

theorem sound_names_append (h : Sound ms) :
    Sound (ofTokens (Segment.joined (names.map .plain)) ++ ms) := by
  induction names with
  | nil => exact h
  | cons i names ih =>
    have hi := hnames i (by simp)
    cases names with
    | nil => simp [Segment.joined, Segment.tokens, ofTokens_cons, ofTokens_nil, Token.lexemes, hi, hname, h]
    | cons j names =>
      have hrest := ih (fun k hk => hnames k (List.mem_cons_of_mem i hk)) (fun hnil => by cases hnil)
      rw [ofTokens_joined_cons, List.cons_append, List.cons_append, List.append_assoc,
        sound_ident_cons]
      refine ⟨hi, ?_, sound_colons_append (fun hnil => by cases hnil) hrest⟩
      simp [FollowsName, colons, Glyph.isWordy, Lexeme.isWordy]

theorem sound_path_append {p : Path} (hp : p.segments = names.map .plain) (h : Sound ms) :
    Sound (ofTokens p.tokens ++ ms) := by
  have hrest := sound_names_append hnames hname hcolon h
  rw [ofTokens_path, hp, List.append_assoc]
  cases p.leadingColon with
  | true => exact sound_colons_append hcolon hrest
  | false => exact hrest

end Path

end Mark

/-- The words of a path of names. -/
def nameWords : List Ident → List String
  | [] => []
  | [i] => [i.text]
  | i :: j :: rest => i.text :: "::" :: nameWords (j :: rest)

def Path.words (p : Path) : List String :=
  (if p.leadingColon then ["::"] else []) ++ nameWords (p.segments.map Segment.name)

theorem separatedBy_names (turbofish : Bool) (names : List Ident) :
    separatedBy "::" (Segment.pieceParts turbofish (names.map .plain)) =
      (nameWords names).map .word := by
  induction names with
  | nil => rfl
  | cons i names ih =>
    cases names with
    | nil => rfl
    | cons j names =>
      simp only [List.map_cons, Segment.pieceParts, separatedBy, nameWords] at ih ⊢
      rw [ih]
      rfl

theorem strokes_names (names : List Ident) :
    Mark.strokes (Mark.ofTokens (Segment.joined (names.map .plain))) =
      Stroke.ofPieces ((nameWords names).map .word) := by
  induction names with
  | nil => rfl
  | cons i names ih =>
    cases names with
    | nil =>
      simp [Segment.joined, Segment.tokens, Mark.ofTokens_cons, Mark.ofTokens_nil, Token.lexemes,
        Mark.strokes, nameWords, Stroke.ofPieces, Glyph.chars, Lexeme.chars]
    | cons j names =>
      rw [Mark.ofTokens_joined_cons, List.cons_append, Mark.strokes, Mark.strokes_append, ih]
      simp [Mark.colons, Mark.strokes, nameWords, Stroke.ofPieces, Glyph.chars, Lexeme.chars]

theorem Path.words_eq {p : Path} {names : List Ident} (h : p.segments = names.map .plain) :
    p.words = (if p.leadingColon then ["::"] else []) ++ nameWords names := by
  simp [Path.words, h, Function.comp_def, Segment.name]

namespace Path.IsPlain

variable {p : Path} (h : p.IsPlain)
include h

theorem pieces_eq : p.pieces = p.words.map .word := by
  obtain ⟨names, hnames, -⟩ := h
  rw [Path.pieces, Path.words_eq hnames, hnames, separatedBy_names]
  cases p.leadingColon <;> rfl

theorem valuePieces_eq : p.valuePieces = p.words.map .word := by
  obtain ⟨names, hnames, -⟩ := h
  rw [Path.valuePieces, Path.words_eq hnames, hnames, separatedBy_names]
  cases p.leadingColon <;> rfl

theorem ofPieces_words :
    Stroke.ofPieces (p.words.map .word) = Mark.strokes (Mark.ofTokens p.tokens) := by
  obtain ⟨names, hnames, -⟩ := h
  rw [Mark.ofTokens_path, Mark.strokes_append, hnames, strokes_names, Path.words_eq hnames,
    List.map_append, Stroke.ofPieces_append]
  cases p.leadingColon <;>
    simp [Mark.colons, Mark.strokes, Stroke.ofPieces, Glyph.chars, Lexeme.chars]

/-- A path before something that neither goes on with a name nor with an operator. -/
theorem sound_append {ms : List Mark} (hname : Mark.FollowsName ms)
    (hcolon : p.segments = [] →
      ∀ b ∈ Mark.next? ms, Glyph.joins (.lexeme (.punct ':' false)) b = false)
    (hrest : Mark.Sound ms) : Mark.Sound (Mark.ofTokens p.tokens ++ ms) := by
  obtain ⟨names, hnames, hspelled⟩ := h
  exact Mark.sound_path_append hspelled hname (fun hnil => hcolon (by simp [hnames, hnil])) hnames hrest

end Path.IsPlain

end RowFactory
