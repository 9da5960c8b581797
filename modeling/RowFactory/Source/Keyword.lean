import RowFactory.Source.Token

namespace RowFactory

/-- Words that are no identifier unless written raw, among them words reserved for later use. -/
def keywords : List String :=
  ["_", "abstract", "as", "async", "await", "become", "box", "break", "const", "continue", "crate",
    "do", "dyn", "else", "enum", "extern", "false", "final", "fn", "for", "if", "impl", "in", "let",
    "loop", "macro", "match", "mod", "move", "mut", "override", "priv", "pub", "ref", "return",
    "Self", "self", "static", "struct", "super", "trait", "true", "try", "type", "typeof",
    "unsafe", "unsized", "use", "virtual", "where", "while", "yield"]

/-- Words that name a place in the module tree, and so begin or continue a path as they are. -/
def pathKeywords : List String := ["crate", "self", "super", "Self"]

def Ident.isKeyword (i : Ident) : Bool := !i.raw && keywords.contains i.name

end RowFactory
