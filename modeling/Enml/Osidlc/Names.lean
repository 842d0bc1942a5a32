import Enml.Osidlc.Compiler

/-! The names in the files that `osidlc` generates. Each scope of a generated file
is listed with what it declares and with the names of enclosing scopes that are
looked up from it. A scope that refers to an enclosing name before all of its own
are declared is listed twice, once as far as that reference and once as a whole. -/
namespace Enml.Osidlc

/-- The loop of `snake_case`, at the first character or behind it. -/
def snakeCaseFrom : (first : Bool) → Text → Text
  | _, [] => []
  | first, ch :: rest =>
    if ch.isUpper then
      (if first then [] else ['_']) ++ ch.toLower :: snakeCaseFrom false rest
    else ch :: snakeCaseFrom false rest

def snakeCase (value : Text) : Text := snakeCaseFrom true value

structure Scope where
  declares : List Text
  refers : List Text := []

/-- Names that the generator writes as they are. -/
def fixed (names : List String) : List Text := names.map text

/-- The keywords of C++20 and the alternative spellings of its operators. -/
def keywords : List Text :=
  fixed ["alignas", "alignof", "and", "and_eq", "asm", "auto", "bitand", "bitor", "bool", "break",
    "case", "catch", "char", "char8_t", "char16_t", "char32_t", "class", "compl", "concept",
    "const", "consteval", "constexpr", "constinit", "const_cast", "continue", "co_await",
    "co_return", "co_yield", "decltype", "default", "delete", "do", "double", "dynamic_cast",
    "else", "enum", "explicit", "export", "extern", "false", "float", "for", "friend", "goto",
    "if", "inline", "int", "long", "mutable", "namespace", "new", "noexcept", "not", "not_eq",
    "nullptr", "operator", "or", "or_eq", "private", "protected", "public", "register",
    "reinterpret_cast", "requires", "return", "short", "signed", "sizeof", "static",
    "static_assert", "static_cast", "struct", "switch", "template", "this", "thread_local",
    "throw", "true", "try", "typedef", "typeid", "typename", "union", "unsigned", "using",
    "virtual", "void", "volatile", "wchar_t", "while", "xor", "xor_eq"]

def encodeName (type : Text) : Text := text "encode_" ++ snakeCase type

def decodeName (type : Text) : Text := text "decode_" ++ snakeCase type

def methodName (operation : OperationDecl) : Text := snakeCase operation.name

def operationIdName (operation : OperationDecl) : Text :=
  methodName operation ++ text "_operation_id"

namespace Schema

def structNames (schema : Schema) : List Text := schema.structs.map StructDecl.name

def functionNames (schema : Schema) : List Text :=
  schema.structs.flatMap fun decl => [encodeName decl.name, decodeName decl.name]

def clientName (schema : Schema) : Text := schema.service.name ++ text "Client"

def serverName (schema : Schema) : Text := schema.service.name ++ text "Server"

def dispatcherName (schema : Schema) : Text := schema.service.name ++ text "Dispatcher"

/-- The namespaces of the libraries, which every generated file looks up. -/
def libraries : List Text := fixed ["os", "std"]

/-- `cpp_namespace`: the package opens one namespace inside the other. Whatever is
declared in an enclosing one but the outermost hides a library of that name. -/
def packageScopes (schema : Schema) : List Scope :=
  match schema.package.splitOn '.' with
  | [] => []
  | outermost :: inner =>
    { declares := [outermost] } ::
      inner.map fun segment => { declares := [segment], refers := libraries }

/-- The scope of the innermost namespace, with what the included headers declare
in it. -/
def namespaceScope (schema : Schema) (others : List Text) : Scope where
  declares := schema.structNames ++ others
  refers := libraries

end Schema

def structScope (decl : StructDecl) : Scope where
  declares := decl.fields.map FieldDecl.name

def typesHeader (schema : Schema) : List Scope :=
  schema.packageScopes ++ schema.namespaceScope [] :: schema.structs.map structScope

/-- The parameters of an encode function; the type of the second is looked up
behind the first. -/
def encodeParameters (decl : StructDecl) : List Scope :=
  [{ declares := fixed ["encoder"], refers := [decl.name] },
    { declares := fixed ["encoder", "value"] }]

def codecHeader (schema : Schema) : List Scope :=
  schema.packageScopes ++ schema.namespaceScope schema.functionNames ::
    schema.structs.flatMap fun decl => encodeParameters decl ++ [{ declares := fixed ["decoder"] }]

/-- The locals that `emit_size_calculation` declares for a field. -/
def sizeLocals (field : FieldDecl) : List Text :=
  match field.type with
  | .string _ => [field.name ++ text "_size", field.name ++ text "_body"]
  | _ => [field.name ++ text "_body"]

def encodeScope (decl : StructDecl) : Scope where
  declares := fixed ["encoder", "value", "body_size"] ++ decl.fields.flatMap sizeLocals ++
    fixed ["total_size", "result"]
  refers := fixed ["ipc_error"]

/-- The locals of a decode function in front of the value, whose type is looked up
behind them. -/
def decodeLocals : List Text :=
  fixed ["decoder", "body_size_result", "body_result", "end_result", "body"]

def decodeScopes (decl : StructDecl) : List Scope :=
  [{ declares := decodeLocals, refers := decl.name :: fixed ["ipc_error"] },
    { declares := decodeLocals ++ fixed ["value"] }] ++
    decl.fields.map fun _ => { declares := fixed ["field_result"] }

def codecSource (schema : Schema) : List Scope :=
  schema.packageScopes ++ [schema.namespaceScope (schema.functionNames ++ fixed ["ipc_error"]),
      { declares := fixed ["code"] }] ++
    schema.structs.flatMap fun decl =>
      encodeParameters decl ++ encodeScope decl :: decodeScopes decl

/-- The struct types and codec functions that the operations use. -/
def operationTypes (operations : List OperationDecl) : List Text :=
  operations.flatMap fun operation => [operation.requestType, operation.responseType]

def clientMembers (operations : List OperationDecl) : List Text :=
  fixed ["service_id", "service_version"] ++ operations.map operationIdName ++
    fixed ["connection"] ++ operations.map methodName ++ fixed ["connection_"]

def clientScope (operations : List OperationDecl) : Scope where
  declares := clientMembers operations
  refers := operationTypes operations ++ operations.flatMap fun operation =>
    [encodeName operation.requestType, decodeName operation.responseType]

def clientMethodScopes (operation : OperationDecl) : List Scope :=
  [{ declares := fixed ["request", "response_packet_buffer", "request_storage", "encoder",
       "encode_result"]
     refers := [encodeName operation.requestType] },
    { declares := fixed ["request", "response_packet_buffer", "request_storage", "encoder",
        "encode_result", "call_result", "inbound", "decoder"]
      refers := [operationIdName operation, decodeName operation.responseType] ++
        fixed ["service_id", "connection_"] }]

def clientHeader (schema : Schema) : List Scope :=
  schema.packageScopes ++ [schema.namespaceScope (schema.functionNames ++ [schema.clientName]),
      clientScope schema.service.operations,
      { declares := fixed ["connection"], refers := fixed ["connection_"] }] ++
    schema.service.operations.flatMap clientMethodScopes

def serverScope (operations : List OperationDecl) : Scope where
  declares := operations.map methodName
  refers := operationTypes operations

def serverMethodScopes (operation : OperationDecl) : List Scope :=
  [{ declares := fixed ["context"], refers := [operation.requestType] },
    { declares := fixed ["context", "request"] }]

def dispatcherScope (schema : Schema) : Scope where
  declares := fixed ["dispatch_one", "service_id", "implementation_", "channel_",
    "identity_resolver_"]
  refers := schema.serverName :: schema.service.operations.flatMap fun operation =>
    [decodeName operation.requestType, encodeName operation.responseType]

def dispatchLocals : List Text :=
  fixed ["receive_buffer", "receive_result", "message", "context_result", "context"]

/-- The block of one operation in the switch of `dispatch_one`. -/
def dispatchCaseScopes (operation : OperationDecl) : List Scope :=
  [{ declares := dispatchLocals ++ fixed ["decoder", "request_result"]
     refers := [decodeName operation.requestType] },
    { declares := dispatchLocals ++ fixed ["decoder", "request_result", "response_result",
        "response_storage", "encoder", "encode_result"]
      refers := encodeName operation.responseType :: fixed ["implementation_", "channel_"] }]

def serverHeader (schema : Schema) : List Scope :=
  schema.packageScopes ++
    [schema.namespaceScope (schema.functionNames ++ [schema.serverName, schema.dispatcherName]),
      serverScope schema.service.operations, dispatcherScope schema,
      { declares := fixed ["implementation", "channel", "identity_resolver"]
        refers := fixed ["implementation_", "channel_", "identity_resolver_"] },
      { declares := dispatchLocals
        refers := fixed ["channel_", "service_id", "identity_resolver_"] }] ++
    schema.service.operations.flatMap fun operation =>
      serverMethodScopes operation ++ dispatchCaseScopes operation

/-- The scopes of all the files generated for a schema. -/
def generatedScopes (schema : Schema) : List Scope :=
  typesHeader schema ++ codecHeader schema ++ codecSource schema ++ clientHeader schema ++
    serverHeader schema

end Enml.Osidlc
