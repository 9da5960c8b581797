import Mathlib.Data.Option.Basic
import RowFactory.Source.Parser
import RowFactory.Proofs.Source.TokenText

namespace RowFactory

theorem isIdentifier_of_readName? {cs name rest : List Char}
    (h : readName? cs = some (name, rest)) : isIdentifier name := by
  cases cs with
  | nil => cases h
  | cons c cs =>
    rw [readName?] at h
    split at h
    case isTrue hstart =>
      cases h
      simp only [isIdentifier, hstart, Bool.true_and, List.all_eq_true]
      exact fun d hd => List.mem_takeWhile_imp hd
    case isFalse => cases h

theorem isSpelled_of_readIdent? {cs rest : List Char} {i : Ident}
    (h : readIdent? cs = some (i, rest)) : i.isSpelled := by
  unfold readIdent? at h
  split at h
  next after hraw =>
    obtain ⟨⟨name, tail⟩, hname, h⟩ := Option.bind_eq_some_iff.mp h
    have hid := isIdentifier_of_readName? hname
    dsimp only at h
    split at h
    case isTrue => cases h
    case isFalse hnever =>
      cases h
      simpa [Ident.isSpelled, hid] using hnever
  next =>
    obtain ⟨⟨name, tail⟩, hname, heq⟩ := Option.map_eq_some_iff.mp h
    have hid := isIdentifier_of_readName? hname
    cases heq
    simp [Ident.isSpelled, hid]

theorem ne_ident_of_readPunctuation? {cs rest : List Char} {l : Lexeme} {i : Ident}
    (h : readPunctuation? cs = some (l, rest)) : l ≠ .ident i := by
  obtain ⟨⟨c, after⟩, -, h⟩ := Option.bind_eq_some_iff.mp h
  dsimp only at h
  split at h
  case isTrue =>
    obtain ⟨⟨name, tail⟩, -, h⟩ := Option.bind_eq_some_iff.mp h
    dsimp only at h
    split at h
    · cases h
    · cases h
      exact Lexeme.noConfusion
  case isFalse =>
    cases h
    exact Lexeme.noConfusion

theorem isSpelled_of_readLeaf? {cs rest : List Char} {l : Lexeme} {i : Ident}
    (h : readLeaf? cs = some (l, rest)) (hl : l = .ident i) : i.isSpelled := by
  subst hl
  unfold readLeaf? at h
  split at h
  next => cases h
  next =>
    rw [Option.orElse_eq_orElse, Option.orElse_eq_or] at h
    rcases Option.or_eq_some_iff.mp h with h | ⟨-, h⟩
    · exact absurd rfl (ne_ident_of_readPunctuation? h)
    · split at h
      case isTrue => cases h
      case isFalse =>
        obtain ⟨⟨name, tail⟩, hread, heq⟩ := Option.map_eq_some_iff.mp h
        cases heq
        exact isSpelled_of_readIdent? hread

/-- A comment gives the attribute that it stands for. -/
theorem exists_docLexemes_of_readDoc? {cs rest : List Char} {ls : List Lexeme}
    (h : readDoc? cs = some (ls, rest)) : ∃ inner text, ls = docLexemes inner text := by
  have hguard : ∀ (inner : Bool) (text tail : List Char),
      (do guard (carriagesPaired text); return (docLexemes inner text, tail) :
        Option (List Lexeme × List Char)) = some (ls, rest) →
      ∃ inner text, ls = docLexemes inner text := by
    intro inner text tail h
    obtain ⟨-, -, h⟩ := Option.bind_eq_some_iff.mp h
    cases h
    exact ⟨inner, text, rfl⟩
  unfold readDoc? at h
  split at h
  · exact hguard _ _ _ h
  · split at h
    · obtain ⟨_, -, h⟩ := Option.bind_eq_some_iff.mp h
      exact hguard _ _ _ h
    · split at h
      · exact hguard _ _ _ h
      · split at h
        · obtain ⟨_, -, h⟩ := Option.bind_eq_some_iff.mp h
          exact hguard _ _ _ h
        · cases h

/-- The only name in the attribute of a comment is its own. -/
theorem eq_doc_of_mem_docLexemes {inner : Bool} {text : List Char} {i : Ident}
    (h : Lexeme.ident i ∈ docLexemes inner text) : i = .plain "doc" := by
  cases inner <;> simpa [docLexemes] using h

theorem isSpelled_of_readLexemes? {cs rest : List Char} {ls : List Lexeme} {i : Ident}
    (h : readLexemes? cs = some (ls, rest)) (hi : Lexeme.ident i ∈ ls) : i.isSpelled := by
  unfold readLexemes? at h
  split at h
  next =>
    cases h
    cases hi
  next =>
    split at h
    next doc hdoc =>
      cases h
      obtain ⟨inner, text, rfl⟩ := exists_docLexemes_of_readDoc? hdoc
      obtain rfl := eq_doc_of_mem_docLexemes hi
      decide
    next =>
      split at h
      next =>
        cases h
        simp at hi
      next =>
        split at h
        next delimiter hdelimiter =>
          obtain ⟨c, -, hc⟩ := Option.bind_eq_some_iff.mp hdelimiter
          cases h
          obtain rfl := List.mem_singleton.mp hi
          unfold delimiterOf? at hc
          split at hc <;> cases hc
        next =>
          obtain ⟨⟨l, tail⟩, hleaf, heq⟩ := Option.map_eq_some_iff.mp h
          cases heq
          exact isSpelled_of_readLeaf? hleaf (List.mem_singleton.mp hi).symm

/-- Every name in a text's tokens is spelled. -/
theorem isSpelled_of_lexFrom {n : Nat} {cs : List Char} {ls : List Lexeme} {i : Ident}
    (h : lexFrom n cs = some ls) (hi : Lexeme.ident i ∈ ls) : i.isSpelled := by
  induction n generalizing cs ls with
  | zero =>
    cases cs with
    | nil =>
      cases h
      cases hi
    | cons c cs => cases h
  | succ n ih =>
    cases cs with
    | nil =>
      cases h
      cases hi
    | cons c cs =>
      obtain ⟨⟨head, rest⟩, hhead, h⟩ := Option.bind_eq_some_iff.mp h
      obtain ⟨tail, htail, heq⟩ := Option.bind_eq_some_iff.mp h
      cases heq
      rcases List.mem_append.mp hi with hi | hi
      · exact isSpelled_of_readLexemes? hhead hi
      · exact ih htail hi

namespace Token

/-- Every name among the tokens is spelled. -/
def NamesSpelled (ts : List Token) : Prop := ∀ i, Lexeme.ident i ∈ flatten ts → i.isSpelled

/-- The lexemes read so far when groups are still open. -/
def openLexemes (pending : List (Delimiter × List Token)) (done : List Token) : List Lexeme :=
  pending.reverse.flatMap (fun (d, before) => flatten before.reverse ++ [.opening d]) ++
    flatten done.reverse

/-- Pairing the delimiters loses no lexeme. -/
theorem flatten_of_pair {pending : List (Delimiter × List Token)} {done ts : List Token}
    {ls : List Lexeme} (h : pair pending done ls = some ts) :
    flatten ts = openLexemes pending done ++ ls := by
  induction ls generalizing pending done with
  | nil =>
    rw [pair] at h
    split at h
    case isTrue hempty =>
      cases h
      simp [openLexemes, List.isEmpty_iff.mp hempty]
    case isFalse => cases h
  | cons l ls ih =>
    cases l with
    | opening d => simpa [openLexemes, flatten] using ih h
    | closing d =>
      unfold pair at h
      split at h
      next => cases h
      next d' before outer =>
        split at h
        case isTrue heq =>
          subst heq
          simpa [openLexemes, flatten_append, flatten, lexemes] using ih h
        case isFalse => cases h
    | _ => simpa [openLexemes, flatten_append, flatten, lexemes] using ih h

theorem namesSpelled_of_tokens? {cs : List Char} {ts : List Token} (h : tokens? cs = some ts) :
    NamesSpelled ts := by
  obtain ⟨ls, hlex, hpair⟩ := Option.bind_eq_some_iff.mp h
  intro i hi
  rw [flatten_of_pair hpair] at hi
  exact isSpelled_of_lexFrom hlex hi

theorem NamesSpelled.of_suffix {ts us : List Token} (h : NamesSpelled ts) (hus : us <:+ ts) :
    NamesSpelled us := by
  obtain ⟨front, rfl⟩ := hus
  exact fun i hi => h i (by simp [flatten_append, hi])

theorem NamesSpelled.body {d : Delimiter} {body rest : List Token}
    (h : NamesSpelled (.group d body :: rest)) : NamesSpelled body :=
  fun i hi => h i (by simp [flatten, lexemes, hi])

end Token

namespace Parser

open Token

variable {α β : Type} {p : Parser α} {Q : α → Prop} {R : β → Prop}

/-- Where `P` holds of the tokens in front, what the parser returns, if it does not fail, satisfies
`Q`. -/
def EnsuresWhere (P : List Token → Prop) (p : Parser α) (Q : α → Prop) : Prop :=
  ∀ c a c', P c.ahead → p.run c = some (a, c') → Q a

/-- What holds of tokens holds of what is left when some of them have been taken. -/
def PassesOn (P : List Token → Prop) : Prop := ∀ ts us, P ts → us <:+ ts → P us

section

variable {P : List Token → Prop}

theorem ensuresWhere_true (p : Parser α) : EnsuresWhere P p fun _ => True :=
  fun _ _ _ _ _ => trivial

theorem ensuresWhere_pure {a : α} (h : Q a) : EnsuresWhere P (pure a) Q := by
  intro c a' c' _ hrun
  cases hrun
  exact h

theorem ensuresWhere_failure : EnsuresWhere P (failure : Parser α) Q := by
  intro c a c' _ hrun
  cases hrun

/-- What `p` leaves in front is a suffix. -/
theorem EnsuresWhere.bind {f : α → Parser β} (hP : PassesOn P) (hp : EnsuresWhere P p Q)
    (hf : ∀ a, Q a → EnsuresWhere P (f a) R) : EnsuresWhere P (p >>= f) R := by
  intro c b c'' hc hrun
  obtain ⟨⟨a, c'⟩, ha, hb⟩ := Option.bind_eq_some_iff.mp hrun
  exact hf a (hp c a c' hc ha) c' b c'' (hP _ _ hc (p.takesFront ha)) hb

/-- What `p` returns does not matter. -/
theorem ensuresWhere_bind {f : α → Parser β} (hP : PassesOn P)
    (hf : ∀ a, EnsuresWhere P (f a) R) : EnsuresWhere P (p >>= f) R :=
  (ensuresWhere_true p).bind hP fun a _ => hf a

theorem ensuresWhere_ite {b : Prop} [Decidable b] {p q : Parser α} (hp : b → EnsuresWhere P p Q)
    (hq : ¬ b → EnsuresWhere P q Q) : EnsuresWhere P (if b then p else q) Q := by
  split
  case isTrue h => exact hp h
  case isFalse h => exact hq h

theorem EnsuresWhere.closedListFrom (hP : PassesOn P) (stop : List Token → Bool)
    (separator : String) (hp : EnsuresWhere P p Q) (fuel : Nat) :
    EnsuresWhere P (closedListFrom stop separator p fuel) fun as => ∀ a ∈ as.1, Q a := by
  induction fuel with
  | zero => exact ensuresWhere_failure
  | succ fuel ih =>
    refine ensuresWhere_bind hP fun _ =>
      ensuresWhere_ite (fun _ => ensuresWhere_pure (by simp)) fun _ => ?_
    refine hp.bind hP fun a ha => ensuresWhere_bind hP fun _ =>
      ensuresWhere_ite (fun _ => ensuresWhere_pure (by simpa using ha)) fun _ => ?_
    refine ensuresWhere_bind hP fun _ => ih.bind hP fun as has => ensuresWhere_pure ?_
    simpa [ha] using has

theorem EnsuresWhere.commaList (hP : PassesOn P) (hp : EnsuresWhere P p Q) :
    EnsuresWhere P (commaList p) fun as => ∀ a ∈ as.1, Q a :=
  ensuresWhere_bind hP fun _ => (hp.closedListFrom hP _ _ _).bind hP fun _ has =>
    ensuresWhere_pure has

theorem EnsuresWhere.withWritten (hP : PassesOn P) (hp : EnsuresWhere P p Q) :
    EnsuresWhere P (withWritten p) fun a => Q a.1 :=
  ensuresWhere_bind hP fun _ => ensuresWhere_bind hP fun _ => hp.bind hP fun _ ha =>
    ensuresWhere_bind hP fun _ => ensuresWhere_bind hP fun _ => ensuresWhere_pure ha

theorem EnsuresWhere.writtenAs (hP : PassesOn P) (form : α → List Token)
    (hp : EnsuresWhere P p Q) : EnsuresWhere P (writtenAs form p) Q :=
  ensuresWhere_bind hP fun _ => ensuresWhere_bind hP fun _ => hp.bind hP fun _ ha =>
    ensuresWhere_bind hP fun _ => ensuresWhere_pure ha

/-- An identifier is no reserved word. -/
theorem ensuresWhere_ident (hP : PassesOn P) : EnsuresWhere P ident (·.isKeyword = false) := by
  refine ensuresWhere_bind hP fun i => ?_
  by_cases hi : i.isKeyword
  · have hguard : (guard (!i.isKeyword) : Parser Unit) = failure := if_neg (by simp [hi])
    rw [hguard]
    exact EnsuresWhere.bind (Q := fun _ => False) hP ensuresWhere_failure fun _ h => h.elim
  · exact ensuresWhere_bind hP fun _ => ensuresWhere_pure (by simpa using hi)

end

theorem passesOn_namesSpelled : PassesOn NamesSpelled := fun _ _ h hus => h.of_suffix hus

/-- Where every name in front is spelled, what the parser returns, if it does not fail, satisfies
`Q`. -/
def Ensures (p : Parser α) (Q : α → Prop) : Prop :=
  ∀ c a c', NamesSpelled c.ahead → p.run c = some (a, c') → Q a

theorem ensures_pure {a : α} (h : Q a) : (pure a : Parser α).Ensures Q := ensuresWhere_pure h

theorem ensures_failure : (failure : Parser α).Ensures Q := ensuresWhere_failure

/-- What `p` leaves in front is a suffix, so its names are spelled as well. -/
theorem Ensures.bind {f : α → Parser β} (hp : p.Ensures Q) (hf : ∀ a, Q a → (f a).Ensures R) :
    (p >>= f).Ensures R :=
  EnsuresWhere.bind passesOn_namesSpelled hp hf

/-- What `p` returns does not matter. -/
theorem ensures_bind {f : α → Parser β} (hf : ∀ a, (f a).Ensures R) : (p >>= f).Ensures R :=
  ensuresWhere_bind passesOn_namesSpelled hf

theorem ensures_ite {b : Prop} [Decidable b] {p q : Parser α} (hp : b → p.Ensures Q)
    (hq : ¬ b → q.Ensures Q) : (if b then p else q).Ensures Q :=
  ensuresWhere_ite hp hq

/-- A group holds no other names than the tokens that it stands among. -/
theorem Ensures.group (d : Delimiter) (hp : p.Ensures Q) : (group d p).Ensures Q := by
  intro c a c' hc hrun
  simp only [Parser.group] at hrun
  split at hrun
  next d' body rest hahead =>
    split at hrun
    case isTrue =>
      obtain ⟨⟨b, inner⟩, hbody, heq⟩ := Option.map_eq_some_iff.mp hrun
      cases heq
      rw [hahead] at hc
      exact hp (.start body) _ inner hc.body hbody
    case isFalse => cases hrun
  next => cases hrun

theorem Ensures.whileSeesFrom (more : List Token → Bool) (hp : p.Ensures Q) (fuel : Nat) :
    (whileSeesFrom more p fuel).Ensures fun as => ∀ a ∈ as, Q a := by
  induction fuel with
  | zero => exact ensures_pure (by simp)
  | succ fuel ih =>
    refine ensures_bind fun seen => ensures_ite (fun _ => ?_) fun _ => ensures_pure (by simp)
    refine hp.bind fun a ha => ih.bind fun as has => ensures_pure ?_
    simpa [ha] using has

theorem Ensures.whileSees (more : List Token → Bool) (hp : p.Ensures Q) :
    (whileSees more p).Ensures fun as => ∀ a ∈ as, Q a :=
  ensures_bind fun _ => hp.whileSeesFrom more _

theorem Ensures.toEnd (hp : p.Ensures Q) : (toEnd p).Ensures fun as => ∀ a ∈ as, Q a :=
  hp.whileSees _

theorem Ensures.closedListFrom (stop : List Token → Bool) (separator : String) (hp : p.Ensures Q)
    (fuel : Nat) : (closedListFrom stop separator p fuel).Ensures fun as => ∀ a ∈ as.1, Q a :=
  EnsuresWhere.closedListFrom passesOn_namesSpelled stop separator hp fuel

theorem Ensures.closedList (stop : List Token → Bool) (separator : String) (hp : p.Ensures Q) :
    (closedList stop separator p).Ensures fun as => ∀ a ∈ as.1, Q a :=
  ensures_bind fun _ => (hp.closedListFrom _ _ _).bind fun _ has => ensures_pure has

theorem Ensures.commaList (hp : p.Ensures Q) :
    (commaList p).Ensures fun as => ∀ a ∈ as.1, Q a :=
  hp.closedList _ _

theorem Ensures.withWritten (hp : p.Ensures Q) : (withWritten p).Ensures fun a => Q a.1 :=
  EnsuresWhere.withWritten passesOn_namesSpelled hp

theorem Ensures.writtenAs (form : α → List Token) (hp : p.Ensures Q) :
    (writtenAs form p).Ensures Q :=
  EnsuresWhere.writtenAs passesOn_namesSpelled form hp

/-- An identifier is one of the names in front. -/
theorem ensures_anyIdent : anyIdent.Ensures fun i => i.isSpelled := by
  intro c i c' hc hrun
  obtain ⟨ahead, written, altered, unread⟩ := c
  cases ahead with
  | nil => cases hrun
  | cons t ts =>
    cases t with
    | ident j =>
      cases hrun
      exact hc i (by simp [flatten, lexemes])
    | _ => cases hrun

theorem ensures_guard {b : Prop} [Decidable b] (hp : b → p.Ensures Q) :
    (do guard b; p : Parser α).Ensures Q := by
  by_cases h : b
  · exact ensures_bind fun _ => hp h
  · have hguard : (guard b : Parser Unit) = failure := if_neg h
    rw [hguard]
    exact (ensures_failure (Q := fun _ => False)).bind fun _ h => h.elim

theorem ensures_ident : ident.Ensures fun i => i.isSpelled ∧ i.isKeyword = false := by
  refine ensures_anyIdent.bind fun i hi => ensures_guard fun hk => ensures_pure ⟨hi, ?_⟩
  simpa using hk

/-- Where the word is seen in front, it is what is read. -/
theorem eq_plain_of_isWord {w : String} {c c' : Cursor} {i : Ident} (hword : isWord w c.ahead)
    (hrun : anyIdent.run c = some (i, c')) : i = .plain w := by
  obtain ⟨ahead, written, altered, unread⟩ := c
  cases ahead with
  | nil => cases hrun
  | cons t ts =>
    cases t with
    | ident j =>
      cases hrun
      simpa [isWord] using hword
    | _ => cases hrun

theorem run_sees_bind (test : List Token → Bool) (f : Bool → Parser α) (c : Cursor) :
    (sees test >>= f).run c = (f (test c.ahead)).run c := rfl

theorem run_peek_bind {β : Type} (q : Parser β) (f : Option β → Parser α) (c : Cursor) :
    (peek q >>= f).run c = (f ((q.run c).map (·.1))).run c := rfl

/-- Where one word may stand for a name, a name that is read is that word or no reserved one. -/
theorem ensures_ident_or_word (w : String) :
    (do if ← sees (isWord w) then anyIdent else ident : Parser Ident).Ensures fun i =>
      i.isSpelled ∧ (i.isKeyword = false ∨ i = .plain w) := by
  intro c i c' hc hrun
  rw [run_sees_bind] at hrun
  split at hrun
  case isTrue hword =>
    exact ⟨ensures_anyIdent c i c' hc hrun, .inr (eq_plain_of_isWord hword hrun)⟩
  case isFalse =>
    obtain ⟨hspelled, hkeyword⟩ := ensures_ident c i c' hc hrun
    exact ⟨hspelled, .inl hkeyword⟩

end Parser

end RowFactory
