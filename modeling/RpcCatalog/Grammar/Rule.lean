/-!
# Grammar rules

The names under which a reader of a syntax error knows the rules of the grammar, in the order in
which such a message lists them.
-/

set_option autoImplicit false

namespace RpcCatalog.Grammar

/-- The rules that a syntax error can name, in the order in which it lists them. -/
inductive Rule where
  | endOfInput
  | file
  | comment
  | docComment
  | blockComment
  | lineComment
  | name
  | dottedName
  | typeName
  | syntaxWord
  | editionWord
  | importWord
  | packageWord
  | optionWord
  | messageWord
  | serviceWord
  | rpcWord
  | returnsWord
  | quotedText
  | number
  | signedName
  | syntaxDeclaration
  | editionDeclaration
  | importDeclaration
  | importModifier
  | packageDeclaration
  | optionDeclaration
  | optionName
  | constant
  | messageDeclaration
  | serviceDeclaration
  | rpcDeclaration
  | methodName
  | requestType
  | responseType
  | body
  | opaqueDeclaration
  deriving DecidableEq, Repr

namespace Rule

def all : List Rule :=
  [.endOfInput, .file, .comment, .docComment, .blockComment, .lineComment, .name, .dottedName,
    .typeName, .syntaxWord, .editionWord, .importWord, .packageWord, .optionWord, .messageWord,
    .serviceWord, .rpcWord, .returnsWord, .quotedText, .number, .signedName, .syntaxDeclaration,
    .editionDeclaration, .importDeclaration, .importModifier, .packageDeclaration,
    .optionDeclaration, .optionName, .constant, .messageDeclaration, .serviceDeclaration,
    .rpcDeclaration, .methodName, .requestType, .responseType, .body, .opaqueDeclaration]

def text : Rule → String
  | endOfInput => "EOI"
  | file => "proto"
  | comment => "comment"
  | docComment => "doc_comment"
  | blockComment => "block_comment"
  | lineComment => "line_comment"
  | name => "ident"
  | dottedName => "full_ident"
  | typeName => "type_ref"
  | syntaxWord => "kw_syntax"
  | editionWord => "kw_edition"
  | importWord => "kw_import"
  | packageWord => "kw_package"
  | optionWord => "kw_option"
  | messageWord => "kw_message"
  | serviceWord => "kw_service"
  | rpcWord => "kw_rpc"
  | returnsWord => "kw_returns"
  | quotedText => "string_lit"
  | number => "number_lit"
  | signedName => "signed_ident"
  | syntaxDeclaration => "syntax_decl"
  | editionDeclaration => "edition_decl"
  | importDeclaration => "import_decl"
  | importModifier => "import_modifier"
  | packageDeclaration => "package_decl"
  | optionDeclaration => "option_decl"
  | optionName => "option_name"
  | constant => "constant"
  | messageDeclaration => "message_decl"
  | serviceDeclaration => "service_decl"
  | rpcDeclaration => "rpc_decl"
  | methodName => "method_name"
  | requestType => "request_type"
  | responseType => "response_type"
  | body => "opaque_body"
  | opaqueDeclaration => "other_decl"

end Rule

end RpcCatalog.Grammar
