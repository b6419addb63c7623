import RpcCatalog.Declaration
import RpcCatalog.Grammar.Phrase

/-!
# The grammar of interface files

A permissive grammar: only what services depend on has a rule of its own, and any other declaration
is opaque text up to its semicolon or the end of its block. The rules are tried in order, the opaque
declaration last, so a declaration that is not quite of a modelled form becomes `other`.

* `file`: a whole file, with the list of its declarations as value.
* `serviceItem`, `rpcDeclaration`: the entries of a service block.
* `gap`: comments between the tokens of one declaration, which are not declarations.
-/

set_option autoImplicit false

namespace RpcCatalog.Grammar

open Phrase (lexeme mark endOfInput many optional named)

/-! ## Tokens -/

def keyword (rule : Rule) (word : String) : Phrase Unit :=
  (fun _ => ()) <$> lexeme rule (wholeWord word.toList)

def punctuation (c : Char) : Phrase Unit := mark [c]

def nameToken : Phrase String := lexeme .name name

def dottedNameToken : Phrase String := lexeme .dottedName dottedName

def unquote (text : String) : String := String.ofList (text.toList.drop 1).dropLast

/-- A literal in quotes; its value is the text between them. -/
def literal : Phrase String := unquote <$> lexeme .quotedText quotedText

def block : Phrase String := lexeme .body body

def comment : Phrase String :=
  named .comment <|
    lexeme .docComment docComment <|> lexeme .blockComment blockComment
      <|> lexeme .lineComment lineComment

/-- Comments between the tokens of a declaration. They belong to no one. -/
def gap : Phrase Unit :=
  (fun _ => ()) <$>
    many (lexeme .lineComment lineComment <|> lexeme .blockComment blockComment)

/-- `word`, followed by a gap. -/
def opening (rule : Rule) (word : String) : Phrase Unit := keyword rule word <* gap

/-- A gap and then the semicolon that ends a declaration. -/
def closing : Phrase Unit := gap *> punctuation ';'

/-! ## Declarations of a file -/

/-- `syntax = "…";` -/
def syntaxDeclaration : Phrase Unit :=
  named .syntaxDeclaration <|
    keyword .syntaxWord "syntax" *> punctuation '=' *> literal *> punctuation ';'

/-- `edition = "…";` -/
def editionDeclaration : Phrase Unit :=
  named .editionDeclaration <|
    keyword .editionWord "edition" *> punctuation '=' *> literal *> punctuation ';'

/-- The words that may stand between `import` and the path. -/
def importModifier : Phrase String :=
  lexeme .importModifier (orElse (wholeWord "weak".toList) (wholeWord "public".toList))

/-- `import "…";`, with the path as value. -/
def importDeclaration : Phrase String :=
  named .importDeclaration <|
    opening .importWord "import" *> optional importModifier *> gap *> literal <* closing

/-- `package a.b;`, with the package as value. -/
def packageDeclaration : Phrase String :=
  named .packageDeclaration <| opening .packageWord "package" *> dottedNameToken <* closing

def constant : Phrase String :=
  named .constant <|
    literal <|> block <|> lexeme .number number <|> lexeme .signedName signedName
      <|> dottedNameToken

/-- `option a.(b.c).d = …;`, with the name and the constant as value. -/
def optionDeclaration : Phrase (String × String) :=
  named .optionDeclaration <|
    .seq Prod.mk (opening .optionWord "option" *> lexeme .optionName optionName <* gap)
      (punctuation '=' *> gap *> constant <* closing)

/-- `message M { … }`, with the name as value. -/
def messageDeclaration : Phrase String :=
  named .messageDeclaration <| opening .messageWord "message" *> nameToken <* gap <* block

def parenthesized (rule : Rule) : Phrase String :=
  punctuation '(' *> gap *> named rule (lexeme .typeName typeName) <* gap <* punctuation ')'

/-- `rpc M (A) returns (B);` or with a block at its end. A streaming call does not match. -/
def rpcDeclaration : Phrase RpcSignature :=
  named .rpcDeclaration <|
    .seq (fun head (types : String × String) => ⟨head, types.1, types.2⟩)
      (opening .rpcWord "rpc" *> named .methodName nameToken <* gap)
      (.seq Prod.mk (parenthesized .requestType <* gap)
        (opening .returnsWord "returns" *> parenthesized .responseType
          <* gap <* (punctuation ';' <|> (fun _ => ()) <$> block)))

def opaqueToken : Phrase String := lexeme .opaqueDeclaration opaqueDeclaration

/-- One entry of a service block; an empty statement has no value. -/
def serviceItem : Phrase (Option ServiceItem) :=
  (some ∘ ServiceItem.comment) <$> comment
    <|> (some ∘ ServiceItem.rpc) <$> rpcDeclaration
    <|> (fun _ => some .other) <$> optionDeclaration
    <|> (fun _ => none) <$> punctuation ';'
    <|> (fun _ => some .other) <$> opaqueToken

/-- `service S { … }`, with the name and the entries as value. -/
def serviceDeclaration : Phrase (String × List ServiceItem) :=
  named .serviceDeclaration <|
    .seq (fun head items => (head, items.filterMap id))
      (opening .serviceWord "service" *> nameToken <* gap <* punctuation '{')
      (many serviceItem <* punctuation '}')

/-- One declaration of a file; an empty statement has no value. -/
def declaration : Phrase (Option Declaration) :=
  (some ∘ Declaration.comment) <$> comment
    <|> (fun _ => some .other) <$> syntaxDeclaration
    <|> (fun _ => some .other) <$> editionDeclaration
    <|> (some ∘ Declaration.importing) <$> importDeclaration
    <|> (some ∘ Declaration.package) <$> packageDeclaration
    <|> (fun o => some (.option o.1 o.2)) <$> optionDeclaration
    <|> (some ∘ Declaration.message) <$> messageDeclaration
    <|> (fun s => some (.service s.1 s.2)) <$> serviceDeclaration
    <|> (fun _ => none) <$> punctuation ';'
    <|> (fun _ => some .other) <$> opaqueToken

def file : Phrase (List Declaration) :=
  named .file <| (·.filterMap id) <$> many declaration <* endOfInput

end RpcCatalog.Grammar
