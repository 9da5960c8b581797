import RowFactory.Mapping.Binding
import RowFactory.Proofs.Source.Reads

namespace RowFactory

open RowFactory.Parser

/-- The tokens of `name = literal`, and of what stands behind it. -/
def nameTokens (joint : Bool) (literal : String) (rest : List Token) : List Token :=
  Token.word "name" :: .punct '=' joint :: .literal literal :: rest

/-- The attribute `#[column(name = literal ..)]`. -/
def columnAttribute (d : Delimiter) (joint : Bool) (literal : String) (rest : List Token) :
    Attribute :=
  ⟨false, .list ⟨false, [.plain "column"]⟩ d (nameTokens joint literal rest)⟩

/-- Only a literal in double quotes, escaped or raw, stands for a text. -/
theorem literalKind_of_stringValue? {text content : String}
    (h : stringValue? text = some content) : literalKind text = .text := by
  unfold stringValue? at h
  split at h
  case h_1 cs hquote => simp [literalKind, startsWith, hquote, List.isPrefixOf]
  case h_2 cs hraw => simp [literalKind, startsWith, hraw, List.isPrefixOf]
  case h_3 => cases h

theorem reads_string {literal name : String} (h : stringValue? literal = some name)
    (rest : List Token) :
    Parser.string.Reads (.literal literal :: rest) rest (· = name) := by
  have hliteral : Parser.literal.Reads (.literal literal :: rest) rest (· = literal) :=
    reads_of_run fun _ _ _ => ⟨_, _, _, rfl, rfl⟩
  refine hliteral.bind_eq ((reads_guard (literalKind_of_stringValue? h)).bind fun _ _ => ?_)
  exact fun c hc => ⟨name, c, by rw [h]; rfl, rfl, hc, rfl⟩

theorem reads_columnName (g : Grammar) (fuel : Nat) {joint : Bool} {literal name : String}
    (h : stringValue? literal = some name) (rest : List Token) :
    (g.columnName (fuel + 1)).Reads (nameTokens joint literal rest) rest (· = some name) := by
  have hkey : keyPath.Reads (nameTokens joint literal rest)
      (.punct '=' joint :: .literal literal :: rest) (· = ⟨false, [.plain "name"]⟩) := by
    refine (reads_operator?_false rfl).bind_eq ((reads_anyIdent _).bind_eq ?_)
    refine (reads_whileSees_none ?_).bind_eq (reads_pure rfl)
    cases joint <;> rfl
  refine (reads_sees rfl).bind_eq (reads_if_false rfl (hkey.bind_eq (reads_if_true rfl ?_)))
  refine (reads_operator rfl).bind fun _ _ => ?_
  exact (reads_string h rest).bind_eq (reads_pure rfl)

theorem columnName?_columnAttribute {d : Delimiter} {joint : Bool} {literal name : String}
    (h : stringValue? literal = some name) (rest : List Token) :
    (columnAttribute d joint literal rest).columnName? = some name := by
  let arguments := nameTokens joint literal rest
  have hkey : all Parser.string arguments = none := rfl
  obtain ⟨_, c, hrun, rfl, -⟩ :=
    reads_columnName (Grammar.forTokens arguments) arguments.length h rest (.start arguments) rfl
  simp only [Attribute.columnName?, columnAttribute]
  rw [hkey]
  exact Option.bind_eq_some_iff.mpr ⟨_, hrun, rfl⟩

theorem columnOverride?_of_columnAttribute {d : Delimiter} {joint : Bool} {literal name : String}
    {before : List Attribute} (hbefore : columnOverride? before = none)
    (h : stringValue? literal = some name) (rest : List Token) (after : List Attribute) :
    columnOverride? (before ++ columnAttribute d joint literal rest :: after) = some name := by
  have hnamed : (columnAttribute d joint literal rest).isNamed "column" := rfl
  unfold columnOverride? at hbefore ⊢
  rw [List.filter_append, List.findSome?_append, hbefore, List.filter_cons, if_pos hnamed,
    List.findSome?_cons, columnName?_columnAttribute h]
  rfl

/-- The first attribute that names a column for the field does so with this literal. -/
def Field.NamesColumn (x : Field) (literal : String) : Prop :=
  ∃ before d joint rest after, columnOverride? before = none ∧
    x.attrs = before ++ columnAttribute d joint literal rest :: after

theorem resolveColumnName_of_namesColumn {x : Field} {literal name : String}
    (hnames : x.NamesColumn literal) (h : stringValue? literal = some name) (field : Ident) :
    resolveColumnName field x.attrs = name := by
  obtain ⟨before, d, joint, rest, after, hbefore, hattrs⟩ := hnames
  rw [resolveColumnName, hattrs, columnOverride?_of_columnAttribute hbefore h, Option.getD_some]

end RowFactory
