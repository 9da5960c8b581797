import RowFactory.Source.GenericsGrammar

namespace RowFactory

open RowFactory.Parser

/-- A path of names may begin here. -/
def startsNamePath (ts : List Token) : Bool :=
  isIdent ts || isWord "self" ts || isWord "super" ts || isWord "crate" ts || isOperator "::" ts

/-- The word `default` as a mark of what follows, not as the name of a macro. -/
def startsDefault (ts : List Token) : Bool := isWord "default" ts && !isOperator "!" (ts.drop 1)

/-- A nameless field has a struct's body for its type. -/
def startsFieldBody (ts : List Token) : Bool :=
  isWord "struct" ts || (isWord "union" ts && isGroup .brace (ts.drop 1))

/-- A trait begins with a word before its own. -/
def startsMarkedTrait (ts : List Token) : Bool :=
  let second := ts.drop 1
  (isWord "auto" ts && isWord "trait" second) ||
    (isWord "unsafe" ts &&
      (isWord "trait" second || (isWord "auto" second && isWord "trait" (ts.drop 2))))

namespace Parser

/-- The words before `fn`, and `fn`; `safe` is one of them if `foreign`. -/
def signatureHead (foreign : Bool) : Parser Unit := do
  let _ ← word? "const"
  let _ ← word? "async"
  if !(← word? "unsafe") && foreign then let _ ← word? "safe"
  let _ ← abi?
  word "fn"

/-- A name, or `_`. -/
def nameOrBlank : Parser Ident := do
  if ← sees (isWord "_") then anyIdent else ident

/-- A module's or macro's name, which may be the word `try`. -/
def nameOrTry : Parser Ident := do
  if ← sees (isWord "try") then anyIdent else ident

/-- A macro call's arguments; a semicolon follows unless those stand in braces. -/
def callRest : Parser Unit := do
  let (d, _) ← anyGroup
  if d != .brace then operator ";"

/-- A macro call that stands among items. -/
def plainCall : Parser Unit := do
  require startsNamePath
  let _ ← namePath
  operator "!"
  callRest

/-- An imported tree. `rooted` says that a tree in braces may begin with `::`; then nothing is
recorded, and the answer is none. -/
def useTree (rooted : Bool) : Nat → Parser (Option UseTree)
  | 0 => failure
  | depth + 1 => do
    let ts ← ahead
    if isIdent ts || ["self", "super", "crate", "try"].any (isWord · ts) then
      let name ← anyIdent
      if ← operator? "::" then
        return (← useTree false depth).map (.path name)
      else if ← word? "as" then return some (.rename name (← nameOrBlank))
      else return some (.name name)
    else if ← operator? "*" then return some .glob
    else
      let (trees, _) ← group .brace <| commaList do
        let root ← if rooted then operator? "::" else pure false
        let tree ← useTree (rooted && !root) depth
        return if root then none else tree
      return (trees.mapM id).map .group

end Parser

/-- A function begins here. -/
def startsSignature (foreign : Bool) (ts : List Token) : Bool :=
  ((signatureHead foreign).run (.start ts)).isSome

namespace Grammar

variable (g : Grammar)

/-- A field of a struct in braces. A nameless field may have a struct's body for its type. -/
def namedField : Parser Field := do
  let attrs ← g.outerAttributes
  let visibility ← visibility
  let blank ← sees (isWord "_")
  let name ← nameOrBlank
  operator ":"
  if blank && startsFieldBody (← ahead) then
    let body ← verbatim do
      copy 1
      group .brace (commaList g.field)
    return ⟨attrs, visibility, some name, .verbatim body⟩
  else return ⟨attrs, visibility, some name, ← g.type true⟩

def tupleField : Parser Field := do
  let attrs ← g.outerAttributes
  return ⟨attrs, ← visibility, none, ← g.type true⟩

def namedFields : Parser (List Field) := do
  return (← group .brace (commaList g.field)).1

def tupleFields : Parser (List Field) := do
  return (← group .paren (commaList g.tupleField)).1

/-- The body of a struct after its parameters. -/
def structBody (generics : Generics) : Parser (Generics × Fields) := do
  if ← sees (isGroup .paren) then
    let fields ← g.tupleFields
    let generics ← g.whereClause generics
    operator ";"
    return (generics, .tuple fields)
  else
    let generics ← g.whereClause generics
    if ← operator? ";" then return (generics, .unit)
    else return (generics, .named (← g.namedFields))

/-- A struct from the word `struct` on. -/
def structItem (attrs : List Attribute) (visibility : Visibility) : Parser StructItem := do
  word "struct"
  let name ← ident
  let (generics, fields) ← g.structBody (← g.genericParams)
  return ⟨attrs, visibility, name, generics, fields⟩

/-- A variant of an enum; its visibility is not written. -/
def variant : Parser Unit := do
  let _ ← g.outerAttributes
  let _ ← unwritten visibility
  let _ ← ident
  if ← sees (isGroup .brace) then let _ ← g.namedFields
  else if ← sees (isGroup .paren) then let _ ← g.tupleFields
  if ← operator? "=" then let _ ← g.anyExpr

/-- An enum from the word `enum` on. -/
def enumItem : Parser Ident := do
  word "enum"
  let name ← ident
  let _ ← g.whereClause (← g.genericParams)
  let _ ← group .brace (commaList g.variant)
  return name

/-- A union from the word `union` on. -/
def unionItem : Parser Ident := do
  word "union"
  let name ← ident
  let _ ← g.whereClause (← g.genericParams)
  let _ ← g.namedFields
  return name

/-- The parameter `self` in one of its forms; only one without `&` may be given a type. -/
def receiver : Parser Unit := do
  let borrowed ← operator? "&"
  if borrowed then let _ ← ifSees isLifetime lifetime
  let _ ← word? "mut"
  word "self"
  if !borrowed && isOperator ":" (← ahead) then
    operator ":"
    let _ ← g.type true

/-- A parameter of a function after its attributes. The answer says that it stands for any number
of arguments. A type alone is written with a blank name. -/
def typedParam : Parser Bool := do
  if ← sees fun ts => isIdent ts && isOperator "<" (ts.drop 1) then
    write [Token.word "_", .punct ':' false]
    let _ ← g.type true
    return false
  else
    let _ ← g.pattern
    operator ":"
    if ← operator? "..." then return true
    else
      let _ ← g.type true
      return false

/-- The parameters of a function to the end, at most `fuel` of them; `self` may only be the
first. -/
def params (first : Bool) : Nat → Parser Unit
  | 0 => failure
  | fuel + 1 => do
    if ← atEnd then return
    let _ ← g.outerAttributes
    let variadic ←
      if ← operator? "..." then pure true
      else
        match ← attempt g.receiver with
        | some () =>
          guard first
          pure false
        | none => g.typedParam
    if ← atEnd then return
    operator ","
    if !variadic then params false fuel

/-- A function up to its body, and its name. -/
def signature (foreign : Bool) : Parser Ident := do
  signatureHead foreign
  let name ← ident
  let generics ← g.genericParams
  group .paren do g.params true ((← ahead).length + 1)
  let _ ← g.output? true
  let _ ← g.whereClause generics
  return name

/-- A body, or a semicolon in its place. -/
def bodyOrNone : Parser (Option (List Attribute)) := do
  if ← operator? ";" then return none else return some (← g.attributedBlock)

/-- A constant from the word `const` on. The flags say that it is given a value, and that it has
neither parameters nor conditions. -/
def constItem : Parser (Ident × Ty × Bool × Bool) := do
  word "const"
  let name ← nameOrBlank
  let angled ← sees (isOperator "<")
  let generics ← g.genericParams
  operator ":"
  let type ← g.type true
  let valued ← operator? "="
  if valued then let _ ← g.anyExpr
  let conditional ← sees (isWord "where")
  let _ ← g.whereClause generics
  operator ";"
  return (name, type, valued, !angled && !conditional)

/-- An associated or aliased type from the word `type` on. A where clause may stand before its
definition if `early`, after it if `late`, but only once. The flags say that there is a colon for
bounds, and a definition. -/
def typeItem (early late : Bool) : Parser (Ident × Bool × Bool) := do
  word "type"
  let name ← ident
  let generics ← g.genericParams
  let bounded ← sees (isOperator ":")
  let _ ← g.boundsAfterColon fun ts => isWord "where" ts || isOperator "=" ts || isOperator ";" ts
  let conditional ← sees (isWord "where")
  if early then let _ ← g.whereClause generics
  let defined ← operator? "="
  if defined then let _ ← g.type true
  if late && !(early && conditional) then let _ ← g.whereClause generics
  operator ";"
  return (name, bounded, defined)

/-- A static from the word `static` on, and its name if it has a type and a value. -/
def staticItem : Parser (Option Ident) := do
  word "static"
  let _ ← word? "mut"
  let name ← ident
  let typed ← sees (!isOperator "=" ·)
  if typed then
    operator ":"
    let _ ← g.type true
  let valued ← operator? "="
  if valued then let _ ← g.anyExpr
  operator ";"
  return if typed && valued then some name else none

/-- Inner attributes, then what `p` reads, to the end of a braced body. -/
def bracedAll {α : Type} (p : Parser α) : Parser (List α) :=
  group .brace do
    let _ ← g.innerAttributes
    toEnd p

/-- What an `impl` holds at one place, after its attributes. -/
def implContent (attrs : List Attribute) : Parser ImplContent := do
  let visibility ← visibility
  let isDefault ← sees startsDefault
  if isDefault then copy 1
  let ts ← ahead
  if startsSignature false ts then
    let name ← g.signature false
    match ← g.bodyOrNone with
    | some inner => return .function (attrs ++ inner) visibility name
    | none => return .verbatim
  else if isWord "const" ts then
    let (name, type, valued, plain) ← g.constItem
    return if valued && plain then .constant attrs visibility name type else .verbatim
  else if isWord "type" ts then
    let (name, bounded, defined) ← g.typeItem false true
    return if defined && !bounded then .type attrs visibility name else .verbatim
  else
    guard (visibility = .inherited && !isDefault)
    plainCall
    return .call attrs

/-- An item of an `impl`. -/
def implItem : Parser ImplItem := do
  let ((content, tokens), altered) ← withAltered <| withWritten do
    let before ← cursor
    let content ← g.implContent (← g.outerAttributes)
    match content with
    | .verbatim => let _ ← restoreSince before
    | _ => pure ()
    return content
  return ⟨tokens, altered, content⟩

/-- What a trait holds at one place. -/
def traitContent : Parser Unit := do
  let before ← cursor
  let _ ← g.outerAttributes
  let visibility ← visibility
  let isDefault ← word? "default"
  let marked := visibility != .inherited || isDefault
  let ts ← ahead
  let plain ←
    if startsSignature false ts then
      let _ ← g.signature false
      let _ ← g.bodyOrNone
      pure true
    else if isWord "const" ts then
      let (_, _, _, plain) ← g.constItem
      pure plain
    else if isWord "type" ts then
      let _ ← g.typeItem false true
      pure true
    else
      guard !marked
      plainCall
      pure true
  if marked || !plain then let _ ← restoreSince before

/-- What an `extern` block holds at one place. -/
def foreignContent : Parser Unit := do
  let before ← cursor
  let _ ← g.outerAttributes
  let visibility ← visibility
  let ts ← ahead
  let second := ts.drop 1
  let plain ←
    if startsSignature true ts then
      let head ← ahead
      let _ ← g.signature true
      let body ← g.bodyOrNone
      pure (startsSignature false head && body.isNone)
    else if isWord "static" ts ||
        ((isWord "unsafe" ts || isWord "safe" ts) && isWord "static" second) then
      let marked ← sees (!isWord "static" ·)
      if marked then copy 1
      word "static"
      let _ ← word? "mut"
      let _ ← ident
      operator ":"
      let _ ← g.type true
      let valued ← operator? "="
      if valued then let _ ← g.anyExpr
      operator ";"
      pure (!marked && !valued)
    else if isWord "type" ts then
      let (_, bounded, defined) ← g.typeItem true true
      pure (!bounded && !defined)
    else
      guard (visibility = .inherited)
      plainCall
      pure true
  if !plain then let _ ← restoreSince before

/-- A trait from the word `trait` on, or a name for bounds; the latter only if `aliased`. -/
def traitItem (aliased : Bool) : Parser Ident := do
  word "trait"
  let name ← ident
  let generics ← g.genericParams
  if aliased && isOperator "=" (← ahead) then
    operator "="
    let _ ← openList (fun ts => isWord "where" ts || isOperator ";" ts) "+" g.bound
    let _ ← g.whereClause generics
    operator ";"
  else
    let _ ← g.boundsAfterColon fun ts => isWord "where" ts || isGroup .brace ts
    let _ ← g.whereClause generics
    let _ ← g.bracedAll g.traitContent
  return name

/-- An `impl` from its own word on. A `!` says that a type does not have the trait. -/
def implBlock (visibility : Visibility) : Parser Item := do
  let _ ← word? "default"
  let _ ← word? "unsafe"
  word "impl"
  let generics ← if ← sees startsGenerics then g.genericParams else pure .none
  let isConst ← sees fun ts =>
    isWord "const" ts || (isOperator "?" ts && isWord "const" (ts.drop 1))
  if isConst then
    let _ ← operator? "?"
    word "const"
  let negative ← sees fun ts => isOperator "!" ts && !isGroup .brace (ts.drop 1)
  if negative then operator "!"
  let target ← g.type true
  let ofTrait ← word? "for"
  guard (ofTrait || !negative)
  if ofTrait then let _ ← g.type true
  let _ ← g.whereClause generics
  let items ← g.bracedAll g.implItem
  let named := match target with
    | .path none _ _ _ => true
    | _ => false
  return if isConst || visibility != .inherited || (ofTrait && !named) then .verbatim
    else if ofTrait then .unnamed
    else .inherentImpl target items

/-- A crate from the word `extern` on. -/
def externCrate : Parser Item := do
  word "extern"
  word "crate"
  let name ← if ← sees (isWord "self") then anyIdent else ident
  let newName ← ifSees (isWord "as") do
    word "as"
    nameOrBlank
  operator ";"
  return .externCrate name newName

/-- A block of foreign items. -/
def externBlock : Parser Item := do
  let _ ← word? "unsafe"
  let _ ← abi
  let _ ← g.bracedAll g.foreignContent
  return .unnamed

/-- A macro by example with its own name, or a call. -/
def callItem : Parser Item := do
  require startsNamePath
  let _ ← namePath
  operator "!"
  let name ← ifSees isAnyIdent nameOrTry
  callRest
  return match name with
    | some n => .named n
    | none => .unnamed

/-- A macro with declared parameters. -/
def macroItem : Parser Item := do
  word "macro"
  let _ ← ident
  if ← sees (isGroup .paren) then copy 1
  require (isGroup .brace)
  copy 1
  return .verbatim

/-- A module from its own word on. -/
def moduleItem : Parser Item := do
  let _ ← word? "unsafe"
  word "mod"
  let name ← nameOrTry
  if ← operator? ";" then return .module name none
  else
    return .module name (some (← group .brace do
      let _ ← g.innerAttributes
      g.items))

def useItem : Parser Item := do
  word "use"
  let leadingColon ← operator? "::"
  let tree ← useTree (!leadingColon) (Token.sizeAll (← ahead) + 1)
  operator ";"
  return match tree with
    | some tree => .use leadingColon tree
    | none => .verbatim

/-- An item that binds its name, if it has the form of one. -/
def namedOrVerbatim : Option Ident → Item
  | some name => .named name
  | none => .verbatim

/-- An item after its attributes and visibility. -/
def itemRest (attrs : List Attribute) (visibility : Visibility) : Parser Item := do
  let ts ← ahead
  let second := ts.drop 1
  if startsSignature false ts then
    let name ← g.signature false
    return namedOrVerbatim ((← g.bodyOrNone).map fun _ => name)
  else if isWord "extern" ts && isWord "crate" second then externCrate
  else if isWord "extern" ts || (isWord "unsafe" ts && isWord "extern" second) then
    guard (visibility = .inherited)
    g.externBlock
  else if isWord "use" ts then useItem
  else if isWord "static" ts then return namedOrVerbatim (← g.staticItem)
  else if isWord "const" ts then
    let (name, _, valued, plain) ← g.constItem
    return if valued && plain then .named name else .verbatim
  else if isWord "mod" ts || (isWord "unsafe" ts && isWord "mod" second) then g.moduleItem
  else if isWord "type" ts then
    let (name, bounded, defined) ← g.typeItem true false
    return if defined && !bounded then .named name else .verbatim
  else if isWord "struct" ts then return .struct (← g.structItem attrs visibility)
  else if isWord "enum" ts then return .named (← g.enumItem)
  else if isWord "union" ts && isIdent second then return .named (← g.unionItem)
  else if isWord "trait" ts then return .named (← g.traitItem true)
  else if startsMarkedTrait ts then
    let _ ← word? "unsafe"
    let _ ← word? "auto"
    return .named (← g.traitItem false)
  else if isWord "impl" ts || (isWord "unsafe" ts && isWord "impl" second) || startsDefault ts then
    g.implBlock visibility
  else if isWord "macro" ts then macroItem
  else
    guard (visibility = .inherited)
    callItem

/-- An item whose attributes have been read; they begin at `before`. -/
def itemSince (before : Cursor) (attrs : List Attribute) : Parser Item := do
  let item ← g.itemRest attrs (← visibility)
  match item with
  | .verbatim => let _ ← restoreSince before
  | _ => pure ()
  return item

def oneItem : Parser Item := do
  let before ← cursor
  g.itemSince before (← g.outerAttributes)

/-- What a derive stands on: a struct, an enum or a union. -/
def typeDeclaration : Parser TypeItem := do
  let attrs ← g.outerAttributes
  let visibility ← visibility
  let ts ← ahead
  if isWord "struct" ts then return .struct (← g.structItem attrs visibility)
  else if isWord "enum" ts then return .enum attrs (← g.enumItem)
  else return .union attrs (← g.unionItem)

end Grammar

end RowFactory
