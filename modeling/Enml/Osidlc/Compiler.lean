import Mathlib.Algebra.Group.Nat.Defs
import Mathlib.Data.List.Basic

/-! The front end of `osidlc`: the lexer, the parser and the validation that a
schema passes before anything is generated from it. A text is a list of
characters, one for each byte of the source. -/
namespace Enml.Osidlc

abbrev Text := List Char

/-- The bytes of a literal. -/
def text (literal : String) : Text := literal.toUTF8.data.toList.map fun b => Char.ofNat b.toNat

def maxInlinePayload : Nat := 64 * 1024

/-- Why a text was refused: where, and the message. `exhausted` is not one of the
diagnostics: it marks the parser giving up on a bound of the model, which does not
happen. -/
inductive Failure where
  | diagnostic (line column : Nat) (message : String)
  | exhausted
  deriving DecidableEq

inductive TokenKind where
  | identifier | number | symbol | end
  deriving DecidableEq

/-- A token and where it stands. -/
structure Token where
  kind : TokenKind := .end
  text : Text := []
  line : Nat := 1
  column : Nat := 1

def isSpace (ch : Char) : Bool :=
  ch = ' ' || ch = '\t' || ch = '\n' || ch = '\x0b' || ch = '\x0c' || ch = '\r'

def isHexDigit (ch : Char) : Bool := ch.isDigit || ('a' ≤ ch && ch ≤ 'f') || ('A' ≤ ch && ch ≤ 'F')

def isIdentifierStart (ch : Char) : Bool := ch = '_' || ch.isAlpha

def isIdentifierContinue (ch : Char) : Bool := ch = '_' || ch.isAlphanum

def isSymbol (ch : Char) : Bool :=
  match ch with
  | '.' | ';' | '{' | '}' | '<' | '>' | '=' => true
  | _ => false

/-- Where the lexer stands: `line_` and `column_`. -/
structure Place where
  line : Nat := 1
  column : Nat := 1

def Place.advance (place : Place) (ch : Char) : Place :=
  if ch = '\n' then { line := place.line + 1, column := 1 }
  else { place with column := place.column + 1 }

def Place.token (place : Place) (kind : TokenKind) (text : Text) : Token :=
  { kind, text, line := place.line, column := place.column }

/-- The loop of `lex` from one character on. `skip` counts the characters that
the token or comment before it has already taken. -/
def lexFrom : (skip : Nat) → Place → Text → Except Failure (List Token)
  | _, place, [] => .ok [place.token .end []]
  | skip + 1, place, ch :: rest => lexFrom skip (place.advance ch) rest
  | 0, place, ch :: rest =>
    if isSpace ch then lexFrom 0 (place.advance ch) rest
    else if ch = '/' && rest.head? = some '/' then
      lexFrom (rest.takeWhile fun c => c != '\n').length (place.advance ch) rest
    else if isIdentifierStart ch then do
      let more := rest.takeWhile isIdentifierContinue
      let tokens ← lexFrom more.length (place.advance ch) rest
      return place.token .identifier (ch :: more) :: tokens
    else if ch.isDigit then
      if ch = '0' && (rest.head? = some 'x' || rest.head? = some 'X') then
        let digits := rest.tail.takeWhile isHexDigit
        if digits = [] then
          .error (.diagnostic place.line place.column "expected hexadecimal digits after 0x")
        else do
          let tokens ← lexFrom (1 + digits.length) (place.advance ch) rest
          return place.token .number (ch :: rest.take (1 + digits.length)) :: tokens
      else do
        let more := rest.takeWhile Char.isDigit
        let tokens ← lexFrom more.length (place.advance ch) rest
        return place.token .number (ch :: more) :: tokens
    else if isSymbol ch then do
      let tokens ← lexFrom 0 (place.advance ch) rest
      return place.token .symbol [ch] :: tokens
    else .error (.diagnostic place.line place.column "unexpected character")

def lex (source : Text) : Except Failure (List Token) := lexFrom 0 {} source

inductive FieldType where
  | u32 | u64 | string (maximum : Nat)
  deriving DecidableEq

structure FieldDecl where
  name : Text
  type : FieldType
  id : Nat
  line : Nat := 0
  column : Nat := 0
  deriving DecidableEq

/-- A declared struct. -/
structure StructDecl where
  name : Text
  fields : List FieldDecl := []
  line : Nat := 0
  column : Nat := 0
  deriving DecidableEq

structure OperationDecl where
  name : Text
  id : Nat
  requestType : Text
  responseType : Text
  line : Nat := 0
  column : Nat := 0
  deriving DecidableEq

structure ServiceDecl where
  name : Text
  id : Nat := 0
  version : Nat := 0
  operations : List OperationDecl := []
  line : Nat := 0
  column : Nat := 0
  deriving DecidableEq

/-- A parsed schema. The parser refuses a text without a service, so the
service is there. -/
structure Schema where
  package : Text
  structs : List StructDecl
  service : ServiceDecl
  deriving DecidableEq

/-- The parser holds the tokens from the current one on. -/
abbrev Parser := StateT (List Token) (Except Failure)

namespace Parser

/-- The last token is never passed, so there is always a current one. -/
def current : Parser Token := do
  let tokens ← get
  return tokens.headD {}

def fail {α : Type} (token : Token) (message : String) : Parser α :=
  throw (.diagnostic token.line token.column message)

def atEnd : Parser Bool := do
  let token ← current
  return token.kind = .end

def matchesIdentifier (identifier : String) : Parser Bool := do
  let token ← current
  return token.kind = .identifier && token.text = text identifier

def matchesSymbol (symbol : Char) : Parser Bool := do
  let token ← current
  return token.kind = .symbol && token.text = [symbol]

def advance : Parser Unit := do
  if !(← atEnd) then modify List.tail

def consumeIdentifier : Parser Text := do
  let token ← current
  if token.kind ≠ .identifier then fail token "expected identifier"
  else
    advance
    return token.text

def consumeKeyword (keyword : String) : Parser Unit := do
  if !(← matchesIdentifier keyword) then
    fail (← current) ("expected '" ++ keyword ++ "'")
  else advance

def consumeSymbol (symbol : Char) : Parser Unit := do
  if !(← matchesSymbol symbol) then
    fail (← current) ("expected '" ++ symbol.toString ++ "'")
  else advance

def digitValue (ch : Char) : Nat :=
  if ch.isDigit then ch.toNat - '0'.toNat
  else if 'a' ≤ ch && ch ≤ 'f' then 10 + (ch.toNat - 'a'.toNat)
  else if 'A' ≤ ch && ch ≤ 'F' then 10 + (ch.toNat - 'A'.toNat)
  else 36

/-- `std::from_chars` to a `std::uint64_t`, with the whole text a number. -/
def fromChars (base : Nat) (text : Text) : Option Nat :=
  let value := text.foldl (fun value ch => value * base + digitValue ch) 0
  if text = [] || text.any (fun ch => base ≤ digitValue ch) || 2 ^ 64 ≤ value then none
  else some value

def numberOf (text : Text) : Option Nat :=
  match text with
  | '0' :: 'x' :: digits | '0' :: 'X' :: digits =>
    if digits = [] then fromChars 10 text else fromChars 16 digits
  | _ => fromChars 10 text

def consumeNumber : Parser Nat := do
  let token ← current
  if token.kind ≠ .number then fail token "expected integer"
  else
    match numberOf token.text with
    | none => fail token "invalid integer"
    | some value =>
      advance
      return value

/-- An integer from one to `maximum`; `message` reports any other. -/
def consumeBounded (maximum : Nat) (message : String) : Parser Nat := do
  let value ← consumeNumber
  if value = 0 || maximum < value then fail (← current) message
  else return value

/-- The segments of a package name after its first. -/
def parseSegments : (fuel : Nat) → Text → Parser Text
  | fuel, package => do
      if !(← matchesSymbol '.') then return package
      else
        match fuel with
        | 0 => throw .exhausted
        | fuel + 1 =>
          advance
          let segment ← consumeIdentifier
          parseSegments fuel (package ++ '.' :: segment)

def parsePackage (fuel : Nat) : Parser Text := do
  consumeKeyword "package"
  let segment ← consumeIdentifier
  let package ← parseSegments fuel segment
  consumeSymbol ';'
  return package

def parseType : Parser FieldType := do
  if ← matchesIdentifier "u32" then
    advance
    return .u32
  else if ← matchesIdentifier "u64" then
    advance
    return .u64
  else if ← matchesIdentifier "string" then
    advance
    consumeSymbol '<'
    let maximum ← consumeBounded maxInlinePayload "string bound must be between 1 and 65536 bytes"
    consumeSymbol '>'
    return .string maximum
  else fail (← current) "expected field type u32, u64, or string<N>"

def parseField : Parser FieldDecl := do
  let location ← current
  let type ← parseType
  let name ← consumeIdentifier
  consumeSymbol '='
  let id ← consumeBounded (2 ^ 32 - 1) "field id must be in range 1..2^32-1"
  consumeSymbol ';'
  return { name, type, id, line := location.line, column := location.column }

/-- The fields up to the closing brace, after those already read. -/
def parseFields : (fuel : Nat) → List FieldDecl → Parser (List FieldDecl)
  | fuel, fields => do
      if ← matchesSymbol '}' then return fields
      else if ← atEnd then fail (← current) "unterminated struct"
      else
        match fuel with
        | 0 => throw .exhausted
        | fuel + 1 =>
          let field ← parseField
          parseFields fuel (fields ++ [field])

def parseStruct (fuel : Nat) : Parser StructDecl := do
  let location ← current
  consumeKeyword "struct"
  let name ← consumeIdentifier
  consumeSymbol '{'
  let fields ← parseFields fuel []
  advance
  return { name, fields, line := location.line, column := location.column }

def parseOperation : Parser OperationDecl := do
  let location ← current
  consumeKeyword "operation"
  let name ← consumeIdentifier
  consumeSymbol '='
  let id ← consumeBounded (2 ^ 32 - 1) "operation id must be in range 1..2^32-1"
  consumeSymbol '{'
  consumeKeyword "request"
  let requestType ← consumeIdentifier
  consumeSymbol ';'
  consumeKeyword "response"
  let responseType ← consumeIdentifier
  consumeSymbol ';'
  consumeSymbol '}'
  return { name, id, requestType, responseType, line := location.line, column := location.column }

/-- The body of a service, with the id and the version as far as they have been
given. -/
structure ServiceBody where
  id : Option Nat := none
  version : Option Nat := none
  operations : List OperationDecl := []

def parseServiceId (body : ServiceBody) : Parser ServiceBody := do
  if body.id.isSome then fail (← current) "duplicate service id"
  else
    advance
    let id ← consumeBounded (2 ^ 32 - 1) "service id must be in range 1..2^32-1"
    consumeSymbol ';'
    return { body with id := some id }

def parseServiceVersion (body : ServiceBody) : Parser ServiceBody := do
  if body.version.isSome then fail (← current) "duplicate service version"
  else
    advance
    let version ← consumeBounded (2 ^ 16 - 1) "service version must be in range 1..65535"
    consumeSymbol ';'
    return { body with version := some version }

def parseServiceItem (body : ServiceBody) : Parser ServiceBody := do
  if ← matchesIdentifier "id" then parseServiceId body
  else if ← matchesIdentifier "version" then parseServiceVersion body
  else if ← matchesIdentifier "operation" then
    let operation ← parseOperation
    return { body with operations := body.operations ++ [operation] }
  else fail (← current) "expected service id, version, or operation"

def parseServiceBody : (fuel : Nat) → ServiceBody → Parser ServiceBody
  | fuel, body => do
      if ← matchesSymbol '}' then return body
      else if ← atEnd then fail (← current) "unterminated service"
      else
        match fuel with
        | 0 => throw .exhausted
        | fuel + 1 =>
          let body ← parseServiceItem body
          parseServiceBody fuel body

def parseService (fuel : Nat) : Parser ServiceDecl := do
  let location ← current
  consumeKeyword "service"
  let name ← consumeIdentifier
  consumeSymbol '{'
  let body ← parseServiceBody fuel {}
  advance
  match body.id, body.version with
  | some id, some version =>
    return { name, id, version, operations := body.operations,
             line := location.line, column := location.column }
  | _, _ => fail location "service requires id and version"

/-- What has been declared so far. -/
structure Draft where
  package : Option Text := none
  structs : List StructDecl := []
  service : Option ServiceDecl := none

def parseDeclaration (fuel : Nat) (draft : Draft) : Parser Draft := do
  if ← matchesIdentifier "package" then
    if draft.package.isSome then fail (← current) "duplicate package declaration"
    else
      let package ← parsePackage fuel
      return { draft with package := some package }
  else if ← matchesIdentifier "struct" then
    let decl ← parseStruct fuel
    return { draft with structs := draft.structs ++ [decl] }
  else if ← matchesIdentifier "service" then
    if draft.service.isSome then
      fail (← current) "M0 OSIDL supports exactly one service per file"
    else
      let service ← parseService fuel
      return { draft with service := some service }
  else fail (← current) "expected package, struct, or service declaration"

def parseDeclarations : (fuel : Nat) → Draft → Parser Draft
  | fuel, draft => do
      if ← atEnd then return draft
      else
        match fuel with
        | 0 => throw .exhausted
        | fuel + 1 =>
          let draft ← parseDeclaration fuel draft
          parseDeclarations fuel draft

/-- The parser over all tokens. Each turn of a loop takes a token, so their
number bounds every loop. -/
def parse (tokens : List Token) : Except Failure Schema := do
  let (draft, _) ← parseDeclarations tokens.length {} tokens
  match draft.package, draft.service with
  | none, _ => .error (.diagnostic 1 1 "missing package declaration")
  | some _, none => .error (.diagnostic 1 1 "missing service declaration")
  | some package, some service => return { package, structs := draft.structs, service }

end Parser

def fieldMaxWireSize (field : FieldDecl) : Nat :=
  match field.type with
  | .u32 => 4
  | .u64 => 8
  | .string maximum => 4 + maximum

def structMaxWireSize (decl : StructDecl) : Nat :=
  decl.fields.foldl (fun total field => total + fieldMaxWireSize field) 4

def quoted (text : Text) : String := "'" ++ String.ofList text ++ "'"

def FieldDecl.fail (field : FieldDecl) (message : String) : Except Failure Unit :=
  .error (.diagnostic field.line field.column message)

def StructDecl.fail (decl : StructDecl) (message : String) : Except Failure Unit :=
  .error (.diagnostic decl.line decl.column message)

def OperationDecl.fail (operation : OperationDecl) (message : String) : Except Failure Unit :=
  .error (.diagnostic operation.line operation.column message)

/-- What the loop over the fields of one struct has seen: the names and ids, the
last id, and the size of the body so far. -/
structure FieldsSeen where
  names : List Text := []
  ids : List Nat := []
  previousId : Nat := 0
  maximumBody : Nat := 0

def FieldsSeen.next (seen : FieldsSeen) (field : FieldDecl) : FieldsSeen where
  names := field.name :: seen.names
  ids := field.id :: seen.ids
  previousId := field.id
  maximumBody := seen.maximumBody + fieldMaxWireSize field

def validateFields (decl : StructDecl) : FieldsSeen → List FieldDecl → Except Failure Unit
  | _, [] => .ok ()
  | seen, field :: rest =>
    if field.name ∈ seen.names then field.fail ("duplicate field name " ++ quoted field.name)
    else if field.id ∈ seen.ids then field.fail ("duplicate field id " ++ toString field.id)
    else if field.id ≤ seen.previousId then
      field.fail "M0 fields must use strictly increasing ids (append-only wire order)"
    else if maxInlinePayload < (seen.next field).maximumBody + 4 then
      decl.fail ("maximum encoded size of struct " ++ quoted decl.name ++
        " exceeds 64 KiB inline payload limit")
    else validateFields decl (seen.next field) rest

def validateStructs : (typeNames : List Text) → List StructDecl → Except Failure Unit
  | _, [] => .ok ()
  | typeNames, decl :: rest =>
    if decl.name ∈ typeNames then decl.fail ("duplicate struct " ++ quoted decl.name)
    else do
      validateFields decl {} decl.fields
      validateStructs (decl.name :: typeNames) rest

def validateOperations (typeNames : List Text) :
    (names : List Text) → (ids : List Nat) → List OperationDecl → Except Failure Unit
  | _, _, [] => .ok ()
  | names, ids, operation :: rest =>
    if operation.name ∈ names then
      operation.fail ("duplicate operation name " ++ quoted operation.name)
    else if operation.id ∈ ids then
      operation.fail ("duplicate operation id " ++ toString operation.id)
    else if operation.requestType ∉ typeNames then
      operation.fail ("unknown request type " ++ quoted operation.requestType)
    else if operation.responseType ∉ typeNames then
      operation.fail ("unknown response type " ++ quoted operation.responseType)
    else validateOperations typeNames (operation.name :: names) (operation.id :: ids) rest

def validateSchema (schema : Schema) : Except Failure Unit := do
  validateStructs [] schema.structs
  let typeNames := schema.structs.map StructDecl.name
  if schema.service.name ∈ typeNames then
    .error (.diagnostic schema.service.line schema.service.column
      ("service name conflicts with struct name " ++ quoted schema.service.name))
  else validateOperations typeNames [] [] schema.service.operations

/-- `compile_text`, up to the schema that every generated file is written from. -/
def compileText (source : Text) : Except Failure Schema := do
  let tokens ← lex source
  let schema ← Parser.parse tokens
  validateSchema schema
  return schema

end Enml.Osidlc
