import RowFactory.Source.File

namespace RowFactory

open RowFactory.Parser

/-- The paths in the arguments of a derive, none if those are no list of paths. -/
def derivePathsOf (arguments : List Token) : List Path :=
  match all (commaList ((Grammar.forTokens arguments).path false)) arguments with
  | some (paths, _) => paths
  | none => []

/-- The attributes in the arguments of a `cfg_attr`, after its condition. -/
def conditionalItems (arguments : List Token) : List MetaItem :=
  match all (commaList (Grammar.forTokens arguments).metaItem) arguments with
  | some (items, _) => items.drop 1
  | none => []

/-- The paths an attribute derives; `cfg_attr` is nested at most `depth` deep. -/
def MetaItem.derivePaths : Nat → MetaItem → List Path
  | depth, .list key _ arguments =>
    if key.isWord "derive" then derivePathsOf arguments
    else if key.isWord "cfg_attr" then
      match depth with
      | 0 => []
      | depth + 1 => (conditionalItems arguments).flatMap (MetaItem.derivePaths depth)
    else []
  | _, _ => []

/-- The paths that the attributes derive. -/
def derivePaths (attrs : List Attribute) : List Path :=
  attrs.flatMap fun a => a.content.derivePaths (Token.sizeAll a.content.tokens)

end RowFactory
