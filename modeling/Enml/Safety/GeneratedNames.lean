import Enml.Invariant.Compiler
import Enml.Osidlc.Names

/-! Whether the names in a generated file stay apart. The compiler compares the
names of a schema as they are written, but the files contain names made from them,
and names of the generator's own. -/
namespace Enml.Osidlc

open List Schema

/-- The names a scope declares are different and no keywords, and none of them
hides a name of an enclosing scope that is looked up from it. -/
def Scope.Clean (scope : Scope) : Prop :=
  scope.declares.Nodup ∧ (∀ name ∈ scope.declares, name ∉ keywords) ∧
    ∀ name ∈ scope.refers, name ∉ scope.declares

instance (scope : Scope) : Decidable scope.Clean := inferInstanceAs (Decidable (_ ∧ _ ∧ _))

/-- The names of a schema from which every generated name stays apart. -/
structure WellNamed (schema : Schema) : Prop where
  package : ∀ segment ∈ schema.package.splitOn '.', segment ∉ keywords
  inner : ∀ segment ∈ (schema.package.splitOn '.').tail, segment ∉ libraries
  structs : ∀ decl ∈ schema.structs, decl.name ∉ keywords ∧
    decl.name ∉ fixed ["os", "std", "ipc_error", "encoder", "decoder", "body_size_result",
      "body_result", "end_result", "body"] ∧
    decl.name ∉ [schema.clientName, schema.serverName, schema.dispatcherName]
  functions : (schema.structs.map fun decl => snakeCase decl.name).Nodup
  apart : ∀ decl ∈ schema.structs, ∀ other ∈ schema.structs,
    decl.name ≠ encodeName other.name ∧ decl.name ≠ decodeName other.name
  fields : ∀ decl ∈ schema.structs, ∀ field ∈ decl.fields, field.name ∉ keywords
  strings : ∀ decl ∈ schema.structs, ∀ field ∈ decl.fields, ∀ maximum,
    field.type = .string maximum → field.name ∉ fixed ["body", "total"]
  methods : (schema.service.operations.map methodName).Nodup
  members : ∀ operation ∈ schema.service.operations, methodName operation ∉ keywords ∧
    methodName operation ∉ fixed ["service_id", "service_version", "connection", "connection_"] ∧
    ∀ other ∈ schema.service.operations, methodName operation ≠ operationIdName other
  types : ∀ operation ∈ schema.service.operations,
    ∀ type ∈ [operation.requestType, operation.responseType],
      type ∉ fixed ["service_id", "service_version", "connection", "connection_"] ∧
        ∀ other ∈ schema.service.operations, type ≠ methodName other ∧ type ≠ operationIdName other
  calls : ∀ operation ∈ schema.service.operations,
    ∀ function ∈ [encodeName operation.requestType, decodeName operation.responseType],
      ∀ other ∈ schema.service.operations,
        function ≠ methodName other ∧ function ≠ operationIdName other
  locals : ∀ operation ∈ schema.service.operations, operation.requestType ≠ text "context" ∧
    snakeCase operation.requestType ≠ text "result" ∧
      snakeCase operation.responseType ≠ text "result"

/-- The names that the generator uses as they are. -/
def generatorNames : List Text :=
  fixed ["encoder", "value", "body_size", "total_size", "result", "decoder", "body_size_result",
    "body_result", "end_result", "body", "field_result", "code", "ipc_error", "service_id",
    "service_version", "connection", "connection_", "request", "response_packet_buffer",
    "request_storage", "encode_result", "call_result", "inbound", "context", "dispatch_one",
    "implementation_", "channel_", "identity_resolver_", "implementation", "channel",
    "identity_resolver", "receive_buffer", "receive_result", "message", "context_result",
    "request_result", "response_result", "response_storage"]

/-- No keyword is one of them, or can be made by adding to a name. -/
theorem keywords_apart : ∀ keyword ∈ keywords, keyword ∉ generatorNames ∧
    (∀ suffix ∈ fixed ["_size", "_body", "_operation_id", "Client", "Server", "Dispatcher"],
      ¬ suffix <:+ keyword) ∧
    ∀ front ∈ fixed ["encode_", "decode_"], ¬ front <+: keyword := by
  decide +kernel

variable {suffix value a b type name : Text} {names refers : List Text} {ch : Char}
  {schema : Schema} {decl : StructDecl} {operations : List OperationDecl}

theorem append_notMem (h : ∀ name ∈ names, ¬ suffix <:+ name) (word : Text) :
    word ++ suffix ∉ names :=
  fun hMem => h _ hMem (suffix_append ..)

theorem prepend_notMem {front : Text} (h : ∀ name ∈ names, ¬ front <+: name) (word : Text) :
    front ++ word ∉ names :=
  fun hMem => h _ hMem (prefix_append ..)

theorem append_ne {first second : Text} (h : first ≠ second) (hLen : first.length = second.length)
    (a b : Text) : a ++ first ≠ b ++ second :=
  fun hSame => h (append_inj_right' hSame hLen)

theorem not_isUpper_toLower (c : Char) : c.toLower.isUpper = false := by
  delta Char.isUpper Char.toLower
  split
  · grind [UInt32.toNat_add]
  · grind

theorem not_isUpper_snakeCaseFrom {first : Bool} (h : ch ∈ snakeCaseFrom first value) :
    ch.isUpper = false := by
  induction value generalizing first with
  | nil => cases h
  | cons c _ ih =>
    rw [snakeCaseFrom] at h
    split_ifs at h with hUpper hFirst
    · rcases mem_cons.mp h with rfl | hRest
      · exact not_isUpper_toLower c
      · exact ih hRest
    · rcases mem_cons.mp h with rfl | h
      · rfl
      · rcases mem_cons.mp h with rfl | hRest
        · exact not_isUpper_toLower c
        · exact ih hRest
    · rcases mem_cons.mp h with rfl | hRest
      · simpa using hUpper
      · exact ih hRest

theorem not_isUpper_snakeCase (h : ch ∈ snakeCase value) : ch.isUpper = false :=
  not_isUpper_snakeCaseFrom h

/-- Names between those of the generator are different from them or not. -/
theorem nodup_around {front middle back : List Text} :
    (front ++ middle ++ back).Nodup ↔
      (front ++ back).Nodup ∧ middle.Nodup ∧ ∀ name ∈ middle, name ∉ front ++ back := by
  have hMove : (front ++ middle ++ back).Perm (front ++ back ++ middle) := by
    rw [append_assoc, append_assoc]
    exact perm_append_comm.append_left front
  rw [hMove.nodup_iff, nodup_append]
  constructor
  · rintro ⟨hFixed, hMiddle, hApart⟩
    exact ⟨hFixed, hMiddle, fun name hName hMem => hApart name hMem name hName rfl⟩
  rintro ⟨hFixed, hMiddle, hApart⟩
  refine ⟨hFixed, hMiddle, ?_⟩
  rintro name hMem other hOther rfl
  exact hApart name hOther hMem

theorem encodeName_inj : encodeName a = encodeName b ↔ snakeCase a = snakeCase b :=
  append_right_inj _

theorem decodeName_inj : decodeName a = decodeName b ↔ snakeCase a = snakeCase b :=
  append_right_inj _

theorem encodeName_ne_decodeName (a b : Text) : encodeName a ≠ decodeName b := by
  intro h
  have hFront : text "encode_" = text "decode_" := append_inj_left h (by decide)
  exact absurd hFront (by decide)

/-- One function has the name of a local of the generator. -/
theorem encodeName_eq_iff :
    encodeName type = text "encode_result" ↔ snakeCase type = text "result" := by
  have hSplit : text "encode_result" = text "encode_" ++ text "result" := by decide
  constructor
  · intro h
    exact append_cancel_left (h.trans hSplit)
  · intro h
    exact (congrArg (text "encode_" ++ ·) h).trans hSplit.symm

theorem encodeName_notMem (hType : snakeCase type ≠ text "result")
    (h : ∀ name ∈ names, text "encode_" <+: name → name = text "encode_result") :
    encodeName type ∉ names :=
  fun hMem => hType (encodeName_eq_iff.mp (h _ hMem (prefix_append ..)))

theorem mem_functionNames :
    name ∈ schema.functionNames ↔
      ∃ decl ∈ schema.structs, name = encodeName decl.name ∨ name = decodeName decl.name := by
  simp [functionNames]

/-- The functions are as different as the snake case of the types. -/
theorem functionNames_nodup_iff :
    schema.functionNames.Nodup ↔
      (schema.structs.map fun decl => snakeCase decl.name).Nodup := by
  rw [functionNames]
  induction schema.structs with
  | nil => simp
  | cons decl _ ih =>
    rw [flatMap_cons, nodup_append, ih, map_cons]
    constructor
    · rintro ⟨-, hRest, hApart⟩
      refine nodup_cons.mpr ⟨fun hMem => ?_, hRest⟩
      obtain ⟨other, hOther, hSame⟩ := mem_map.mp hMem
      refine hApart (encodeName decl.name) (by simp) (encodeName other.name) ?_
        (encodeName_inj.mpr hSame.symm)
      exact mem_flatMap.mpr ⟨other, hOther, by simp⟩
    · intro h
      obtain ⟨hNew, hRest⟩ := nodup_cons.mp h
      refine ⟨?_, hRest, ?_⟩
      · simpa using encodeName_ne_decodeName decl.name decl.name
      intro a ha b hb hSame
      obtain ⟨other, hOther, hb⟩ := mem_flatMap.mp hb
      refine hNew (mem_map.mpr ⟨other, hOther, ?_⟩)
      simp only [mem_cons, not_mem_nil, or_false] at ha hb
      rcases ha with rfl | rfl <;> rcases hb with rfl | rfl
      · exact (encodeName_inj.mp hSame).symm
      · exact absurd hSame (encodeName_ne_decodeName _ _)
      · exact absurd hSame.symm (encodeName_ne_decodeName _ _)
      · exact (decodeName_inj.mp hSame).symm

theorem functionName_notMem (hEncode : ∀ name ∈ names, ¬ text "encode_" <+: name)
    (hDecode : ∀ name ∈ names, ¬ text "decode_" <+: name) {name : Text}
    (h : name ∈ schema.functionNames) : name ∉ names := by
  obtain ⟨decl, -, rfl | rfl⟩ := mem_functionNames.mp h
  · exact prepend_notMem hEncode _
  · exact prepend_notMem hDecode _

theorem not_isUpper_functionName (h : name ∈ schema.functionNames) (hCh : ch ∈ name) :
    ch.isUpper = false := by
  have hLower : ∀ word : Text, (word.all fun c => !c.isUpper) = true →
      ∀ c ∈ word, c.isUpper = false := by
    intro word hAll c hc
    simpa using all_eq_true.mp hAll c hc
  have hEncode : ∀ c ∈ text "encode_", c.isUpper = false := hLower _ (by decide)
  have hDecode : ∀ c ∈ text "decode_", c.isUpper = false := hLower _ (by decide)
  obtain ⟨decl, -, hName | hName⟩ := mem_functionNames.mp h
  · rw [hName] at hCh
    rcases mem_append.mp hCh with hFront | hRest
    · exact hEncode ch hFront
    · exact not_isUpper_snakeCase hRest
  rw [hName] at hCh
  rcases mem_append.mp hCh with hFront | hRest
  · exact hDecode ch hFront
  · exact not_isUpper_snakeCase hRest

/-- The name of a class has a capital, that of a function has none. -/
theorem functionName_ne_className {service : Text} (h : name ∈ schema.functionNames)
    (hUpper : ∃ ch ∈ suffix, ch.isUpper = true) : name ≠ service ++ suffix := by
  intro hSame
  obtain ⟨ch, hCh, hUpper⟩ := hUpper
  have hNone : ch.isUpper = false := not_isUpper_functionName h (hSame ▸ mem_append_right _ hCh)
  rw [hUpper] at hNone
  cases hNone

def encodeFixed : List Text := fixed ["encoder", "value", "body_size", "total_size", "result"]

theorem sizeName_mem_iff : name ++ text "_size" ∈ encodeFixed ↔ name ∈ fixed ["body", "total"] := by
  have hOthers : ∀ word, word ++ text "_size" ∉ fixed ["encoder", "value", "result"] :=
    append_notMem (by decide)
  have hBody : text "body_size" = text "body" ++ text "_size" := by decide
  have hTotal : text "total_size" = text "total" ++ text "_size" := by decide
  have hName := hOthers name
  simp only [fixed, encodeFixed, map_cons, map_nil, mem_cons, not_mem_nil,
    or_false, not_or, hBody, hTotal, append_left_inj] at hName ⊢
  tauto

theorem bodyName_notMem (name : Text) : name ++ text "_body" ∉ encodeFixed :=
  append_notMem (by decide) name

theorem mem_sizeLocals {field : FieldDecl} :
    name ∈ sizeLocals field ↔ name = field.name ++ text "_body" ∨
      (∃ maximum, field.type = .string maximum) ∧ name = field.name ++ text "_size" := by
  rw [sizeLocals]
  cases field.type with
  | u32 | u64 => simp
  | string => simp [or_comm]

theorem sizeName_ne_bodyName (a b : Text) : a ++ text "_size" ≠ b ++ text "_body" :=
  append_ne (by decide) (by decide) a b

/-- The locals of different fields are different. -/
theorem sizeLocals_nodup {fields : List FieldDecl} (h : (fields.map FieldDecl.name).Nodup) :
    (fields.flatMap sizeLocals).Nodup := by
  rw [nodup_flatMap]
  constructor
  · intro field _
    rw [sizeLocals]
    cases field.type with
    | u32 | u64 => simp
    | string => simpa using sizeName_ne_bodyName field.name field.name
  · refine (pairwise_map.mp h).imp fun {a b} hApart => ?_
    intro name ha hb
    rcases mem_sizeLocals.mp ha with rfl | ⟨-, rfl⟩ <;>
      rcases mem_sizeLocals.mp hb with hSame | ⟨-, hSame⟩
    · exact hApart (append_cancel_right hSame)
    · exact sizeName_ne_bodyName _ _ hSame.symm
    · exact sizeName_ne_bodyName _ _ hSame
    · exact hApart (append_cancel_right hSame)

/-- Two of the names of the generator are those of a string field. -/
theorem encodeScope_nodup_iff (h : (decl.fields.map FieldDecl.name).Nodup) :
    (encodeScope decl).declares.Nodup ↔ ∀ field ∈ decl.fields, ∀ maximum,
      field.type = .string maximum → field.name ∉ fixed ["body", "total"] := by
  have hFixed : encodeFixed.Nodup := by decide
  show (fixed ["encoder", "value", "body_size"] ++ _ ++ fixed ["total_size", "result"]).Nodup ↔ _
  rw [nodup_around]
  constructor
  · rintro ⟨-, -, hApart⟩ field hField maximum hType hName
    refine hApart (field.name ++ text "_size") ?_ (sizeName_mem_iff.mpr hName)
    exact mem_flatMap.mpr ⟨field, hField, mem_sizeLocals.mpr (.inr ⟨⟨maximum, hType⟩, rfl⟩)⟩
  intro hStrings
  refine ⟨hFixed, sizeLocals_nodup h, fun name hName hMem => ?_⟩
  obtain ⟨field, hField, hName⟩ := mem_flatMap.mp hName
  rcases mem_sizeLocals.mp hName with rfl | ⟨⟨maximum, hType⟩, rfl⟩
  · exact bodyName_notMem _ hMem
  · exact hStrings field hField maximum hType (sizeName_mem_iff.mp hMem)

def clientFixed : List Text := fixed ["service_id", "service_version", "connection", "connection_"]

theorem mem_clientMembers :
    name ∈ clientMembers operations ↔ name ∈ clientFixed ∨
      ∃ operation ∈ operations, name = methodName operation ∨ name = operationIdName operation := by
  simp only [clientMembers, clientFixed, fixed, map_cons, map_nil, mem_append,
    mem_cons, not_mem_nil, or_false, mem_map]
  grind

theorem operationIdName_notMem (operation : OperationDecl) :
    operationIdName operation ∉ clientFixed :=
  append_notMem (by decide) _

theorem operationIds_nodup_iff :
    (operations.map operationIdName).Nodup ↔ (operations.map methodName).Nodup := by
  have hMap : operations.map operationIdName =
      (operations.map methodName).map fun name => name ++ text "_operation_id" := by
    rw [map_map]
    rfl
  rw [hMap]
  exact nodup_map_iff fun _ _ hSame => append_cancel_right hSame

theorem clientMembers_nodup_iff :
    (clientMembers operations).Nodup ↔ (operations.map methodName).Nodup ∧
      ∀ operation ∈ operations, methodName operation ∉ clientFixed ∧
        ∀ other ∈ operations, methodName operation ≠ operationIdName other := by
  have hFixed : clientFixed.Nodup := by decide
  have hInner : (fixed ["service_id", "service_version"] ++ operations.map operationIdName ++
      (fixed ["connection"] ++ fixed ["connection_"])).Nodup ↔
        (operations.map methodName).Nodup := by
    rw [nodup_around, operationIds_nodup_iff]
    constructor
    · exact fun h => h.2.1
    · refine fun h => ⟨hFixed, h, fun name hName => ?_⟩
      obtain ⟨operation, -, rfl⟩ := mem_map.mp hName
      exact operationIdName_notMem operation
  have hOuter : ∀ name, name ∈ fixed ["service_id", "service_version"] ++
      operations.map operationIdName ++ fixed ["connection"] ++ fixed ["connection_"] ↔
        name ∈ clientFixed ∨ ∃ other ∈ operations, name = operationIdName other := by
    intro name
    simp only [clientFixed, fixed, map_cons, map_nil, mem_append, mem_cons,
      not_mem_nil, or_false, mem_map]
    grind
  rw [clientMembers, nodup_around, append_assoc _ (fixed ["connection"]), hInner]
  simp only [← append_assoc, hOuter]
  constructor
  · rintro ⟨hMethods, -, hApart⟩
    refine ⟨hMethods, fun operation hOp => ?_⟩
    have hName := hApart _ (mem_map_of_mem hOp)
    exact ⟨fun hMem => hName (.inl hMem),
      fun other hOther hSame => hName (.inr ⟨other, hOther, hSame⟩)⟩
  rintro ⟨hMethods, hMembers⟩
  refine ⟨hMethods, hMethods, fun name hName => ?_⟩
  obtain ⟨operation, hOp, rfl⟩ := mem_map.mp hName
  rintro (hMem | ⟨other, hOther, hSame⟩)
  · exact (hMembers operation hOp).1 hMem
  · exact (hMembers operation hOp).2 other hOther hSame

theorem clean_singleton_iff :
    Scope.Clean { declares := [name], refers := refers } ↔ name ∉ keywords ∧ name ∉ refers := by
  simp [Scope.Clean]
  intro _
  constructor
  · exact fun h hMem => h name hMem rfl
  · rintro h other hOther rfl
    exact h hOther

theorem clean_packageScopes_iff :
    (∀ scope ∈ schema.packageScopes, scope.Clean) ↔
      (∀ segment ∈ schema.package.splitOn '.', segment ∉ keywords) ∧
        ∀ segment ∈ (schema.package.splitOn '.').tail, segment ∉ libraries := by
  rw [packageScopes]
  cases schema.package.splitOn '.' with
  | nil => simp
  | cons =>
    simp only [forall_mem_cons, forall_mem_map, clean_singleton_iff, not_mem_nil,
      not_false_eq_true, and_true, tail_cons]
    constructor
    · rintro ⟨hOuter, hInner⟩
      exact ⟨⟨hOuter, fun s hs => (hInner s hs).1⟩, fun s hs => (hInner s hs).2⟩
    · rintro ⟨⟨hOuter, hInner⟩, hApart⟩
      exact ⟨hOuter, fun s hs => ⟨hInner s hs, hApart s hs⟩⟩

theorem clean_namespaceScope_iff {others : List Text} (hNames : schema.structNames.Nodup) :
    (schema.namespaceScope others).Clean ↔
      (∀ decl ∈ schema.structs, decl.name ∉ keywords ∧ decl.name ∉ libraries ∧ decl.name ∉ others) ∧
      others.Nodup ∧ ∀ name ∈ others, name ∉ keywords ∧ name ∉ libraries := by
  rw [Scope.Clean, namespaceScope]
  simp only [nodup_append, structNames, mem_append, not_or, mem_map,
    or_imp, forall_and, forall_exists_index, and_imp, forall_apply_eq_imp_iff₂]
  constructor
  · rintro ⟨⟨-, hOthers, hApart⟩, ⟨hKeyword, hOtherKeyword⟩, hLibrary, hOtherLibrary⟩
    refine ⟨⟨hKeyword, fun decl hDecl hMem => hLibrary _ hMem ⟨decl, hDecl, rfl⟩,
      fun decl hDecl hMem => hApart decl hDecl _ hMem rfl⟩, hOthers, hOtherKeyword,
      fun name hName hMem => hOtherLibrary name hMem hName⟩
  rintro ⟨⟨hKeyword, hLibrary, hApart⟩, hOthers, hOtherKeyword, hOtherLibrary⟩
  refine ⟨⟨hNames, hOthers, ?_⟩, ⟨hKeyword, hOtherKeyword⟩, ?_, fun name hMem hName =>
    hOtherLibrary name hName hMem⟩
  · rintro decl hDecl name hName rfl
    exact hApart decl hDecl hName
  · rintro name hMem ⟨decl, hDecl, rfl⟩
    exact hLibrary decl hDecl hMem

theorem clean_structScope_iff (hNames : (decl.fields.map FieldDecl.name).Nodup) :
    (structScope decl).Clean ↔ ∀ field ∈ decl.fields, field.name ∉ keywords := by
  simp [Scope.Clean, structScope, hNames]

theorem clean_of_generatorNames (hNodup : names.Nodup)
    (hOwn : ∀ name ∈ names, name ∈ generatorNames) (hRefers : ∀ name ∈ refers, name ∉ names) :
    Scope.Clean { declares := names, refers := refers } :=
  ⟨hNodup, fun name hName hKeyword => (keywords_apart name hKeyword).1 (hOwn name hName), hRefers⟩

/-- A name with one of the generator's endings is no keyword. -/
theorem append_not_keyword
    (h : suffix ∈ fixed ["_size", "_body", "_operation_id", "Client", "Server", "Dispatcher"])
    (word : Text) : word ++ suffix ∉ keywords :=
  append_notMem (fun keyword hKeyword => (keywords_apart keyword hKeyword).2.1 suffix h) word

theorem sizeLocals_not_keyword (h : name ∈ decl.fields.flatMap sizeLocals) :
    name ∉ keywords ∧ name ∉ fixed ["ipc_error"] := by
  obtain ⟨field, -, hName⟩ := mem_flatMap.mp h
  rcases mem_sizeLocals.mp hName with rfl | ⟨-, rfl⟩
  all_goals exact ⟨append_not_keyword (by decide) _, append_notMem (by decide) _⟩

theorem clean_encodeScope_iff (hNames : (decl.fields.map FieldDecl.name).Nodup) :
    (encodeScope decl).Clean ↔ ∀ field ∈ decl.fields, ∀ maximum,
      field.type = .string maximum → field.name ∉ fixed ["body", "total"] := by
  rw [← encodeScope_nodup_iff hNames, Scope.Clean, and_iff_left_iff_imp]
  have hOwn : ∀ name ∈ encodeFixed, name ∈ generatorNames ∧ name ∉ fixed ["ipc_error"] := by decide
  have hDeclared : ∀ name ∈ (encodeScope decl).declares,
      name ∉ keywords ∧ name ∉ fixed ["ipc_error"] := by
    intro name hName
    rcases mem_append.mp hName with hName | hBack
    · rcases mem_append.mp hName with hFront | hLocal
      · obtain ⟨hMem, hOther⟩ := hOwn name (mem_append_left (fixed ["total_size", "result"]) hFront)
        exact ⟨fun hKeyword => (keywords_apart name hKeyword).1 hMem, hOther⟩
      · exact sizeLocals_not_keyword hLocal
    · obtain ⟨hMem, hOther⟩ := hOwn name
        (mem_append_right (fixed ["encoder", "value", "body_size"]) hBack)
      exact ⟨fun hKeyword => (keywords_apart name hKeyword).1 hMem, hOther⟩
  intro _
  exact ⟨fun name hName => (hDeclared name hName).1,
    fun name hRefers hName => (hDeclared name hName).2 hRefers⟩

theorem clean_clientScope_iff :
    (clientScope operations).Clean ↔ (clientMembers operations).Nodup ∧
      (∀ operation ∈ operations, methodName operation ∉ keywords) ∧
      ∀ operation ∈ operations, ∀ name ∈ [operation.requestType, operation.responseType,
        encodeName operation.requestType, decodeName operation.responseType],
          name ∉ clientMembers operations := by
  have hFixed : ∀ name ∈ clientFixed, name ∈ generatorNames := by decide
  refine and_congr Iff.rfl (and_congr ?_ ?_)
  · constructor
    · intro h operation hOp
      exact h _ (mem_clientMembers.mpr (.inr ⟨operation, hOp, .inl rfl⟩))
    · intro h name hName
      rcases mem_clientMembers.mp hName with hName | ⟨operation, hOp, rfl | rfl⟩
      · exact fun hKeyword => (keywords_apart name hKeyword).1 (hFixed name hName)
      · exact h operation hOp
      · exact append_not_keyword (by decide) _
  · simp only [clientScope, operationTypes, mem_append, mem_flatMap]
    grind

section Clean

variable (hClean : ∀ scope ∈ generatedScopes schema, scope.Clean)

include hClean

variable {scope : Scope} {operation : OperationDecl}

theorem clean_types (h : scope ∈ typesHeader schema) : scope.Clean :=
  hClean scope (by simp [generatedScopes, h])

theorem clean_source (h : scope ∈ codecSource schema) : scope.Clean :=
  hClean scope (by simp [generatedScopes, h])

theorem clean_client (h : scope ∈ clientHeader schema) : scope.Clean :=
  hClean scope (by simp [generatedScopes, h])

theorem clean_server (h : scope ∈ serverHeader schema) : scope.Clean :=
  hClean scope (by simp [generatedScopes, h])

/-- The scopes of the codec of a struct. -/
theorem clean_codec {decl : StructDecl} (hDecl : decl ∈ schema.structs)
    (h : scope ∈ encodeParameters decl ++ encodeScope decl :: decodeScopes decl) : scope.Clean := by
  refine clean_source hClean (mem_append_right _ ?_)
  exact mem_flatMap.mpr ⟨decl, hDecl, h⟩

theorem clean_client_method (hOp : operation ∈ schema.service.operations)
    (h : scope ∈ clientMethodScopes operation) : scope.Clean := by
  refine clean_client hClean (mem_append_right _ ?_)
  exact mem_flatMap.mpr ⟨operation, hOp, h⟩

theorem clean_server_method (hOp : operation ∈ schema.service.operations)
    (h : scope ∈ serverMethodScopes operation ++ dispatchCaseScopes operation) : scope.Clean := by
  refine clean_server hClean (mem_append_right _ ?_)
  exact mem_flatMap.mpr ⟨operation, hOp, h⟩

theorem wellNamed_of_clean (hValid : schema.Valid) : WellNamed schema := by
  have hNames : schema.structNames.Nodup := hValid.names
  have hPkg := clean_packageScopes_iff.mp fun scope h => clean_types hClean (mem_append_left _ h)
  have hSrc := (clean_namespaceScope_iff hNames).mp (clean_source hClean
    (show schema.namespaceScope (schema.functionNames ++ fixed ["ipc_error"]) ∈ _ by
      simp [codecSource]))
  have hClient := (clean_namespaceScope_iff hNames).mp (clean_client hClean
    (show schema.namespaceScope (schema.functionNames ++ [schema.clientName]) ∈ _ by
      simp [clientHeader]))
  have hSrv := (clean_namespaceScope_iff hNames).mp (clean_server hClean
    (show schema.namespaceScope
      (schema.functionNames ++ [schema.serverName, schema.dispatcherName]) ∈ _ by
        simp [serverHeader]))
  have hMembers := clean_clientScope_iff.mp (clean_client hClean
    (show clientScope schema.service.operations ∈ _ by simp [clientHeader]))
  obtain ⟨hMethods, hApart⟩ := clientMembers_nodup_iff.mp hMembers.1
  have hOutside : ∀ operation ∈ schema.service.operations, ∀ name ∈ [operation.requestType,
      operation.responseType, encodeName operation.requestType, decodeName operation.responseType],
        name ∉ clientFixed ∧ ∀ other ∈ schema.service.operations,
          name ≠ methodName other ∧ name ≠ operationIdName other := by
    intro operation hOp name hName
    have hNot := hMembers.2.2 operation hOp name hName
    rw [mem_clientMembers, not_or] at hNot
    refine ⟨hNot.1, fun other hOther => ⟨fun hSame => hNot.2 ⟨other, hOther, .inl hSame⟩,
      fun hSame => hNot.2 ⟨other, hOther, .inr hSame⟩⟩⟩
  refine ⟨hPkg.1, hPkg.2, ?_, ?_, ?_, ?_, ?_, hMethods, ?_, ?_, ?_, ?_⟩
  · intro decl hDecl
    obtain ⟨hKeyword, hLibrary, hOther⟩ := hSrc.1 decl hDecl
    have hEncoder : decl.name ∉ fixed ["encoder"] :=
      (clean_codec hClean hDecl (show ⟨fixed ["encoder"], [decl.name]⟩ ∈ _ by
        simp [encodeParameters])).2.2 _ mem_cons_self
    have hDecoder : decl.name ∉ decodeLocals :=
      (clean_codec hClean hDecl (show ⟨decodeLocals, decl.name :: fixed ["ipc_error"]⟩ ∈ _ by
        simp [decodeScopes])).2.2 _ mem_cons_self
    have hClass := (hClient.1 decl hDecl).2.2
    have hClasses := (hSrv.1 decl hDecl).2.2
    rw [mem_append, not_or] at hOther hClass hClasses
    refine ⟨hKeyword, ?_, ?_⟩
    · show decl.name ∉ libraries ++ (fixed ["ipc_error"] ++ (fixed ["encoder"] ++ decodeLocals))
      simp only [mem_append, not_or]
      exact ⟨hLibrary, hOther.2, hEncoder, hDecoder⟩
    · show decl.name ∉ [schema.clientName] ++ [schema.serverName, schema.dispatcherName]
      rw [mem_append, not_or]
      exact ⟨hClass.2, hClasses.2⟩
  · exact functionNames_nodup_iff.mp (nodup_append.mp hSrc.2.1).1
  · intro decl hDecl other hOther
    have hNot := (hSrc.1 decl hDecl).2.2
    rw [mem_append, not_or, mem_functionNames] at hNot
    exact ⟨fun hSame => hNot.1 ⟨other, hOther, .inl hSame⟩,
      fun hSame => hNot.1 ⟨other, hOther, .inr hSame⟩⟩
  · intro decl hDecl
    refine (clean_structScope_iff (hValid.structs decl hDecl).names).mp (clean_types hClean ?_)
    exact mem_append_right _ (mem_cons_of_mem _ (mem_map_of_mem hDecl))
  · intro decl hDecl
    refine (clean_encodeScope_iff (hValid.structs decl hDecl).names).mp
      (clean_codec hClean hDecl ?_)
    exact mem_append_right _ mem_cons_self
  · exact fun operation hOp => ⟨hMembers.2.1 operation hOp,
      (hApart operation hOp).1, (hApart operation hOp).2⟩
  · exact fun operation hOp type hType => hOutside operation hOp type (mem_append_left _ hType)
  · exact fun operation hOp function hFn =>
      (hOutside operation hOp function (mem_append_right [_, _] hFn)).2
  · intro operation hOp
    have hCtx : operation.requestType ∉ fixed ["context"] :=
      (clean_server_method hClean hOp
        (show ⟨fixed ["context"], [operation.requestType]⟩ ∈ _ by
          simp [serverMethodScopes])).2.2 _ mem_cons_self
    have hReq := (clean_client_method hClean hOp mem_cons_self).2.2
      (encodeName operation.requestType) mem_cons_self
    have hResp := (clean_server_method hClean hOp
      (mem_append_right _ (mem_cons_of_mem _ mem_cons_self))).2.2
      (encodeName operation.responseType) mem_cons_self
    refine ⟨fun hSame => hCtx (mem_singleton.mpr hSame), fun hSame => hReq ?_,
      fun hSame => hResp ?_⟩
    all_goals
      rw [encodeName_eq_iff.mpr hSame]
      decide

end Clean

/-- The dispatcher looks up nothing that could be one of its members. -/
theorem clean_of_dispatcherScope (schema : Schema) : (dispatcherScope schema).Clean := by
  refine clean_of_generatorNames (by decide) (by decide) ?_
  intro name hName
  rcases mem_cons.mp hName with rfl | hName
  · exact append_notMem (by decide) _
  obtain ⟨operation, -, hName⟩ := mem_flatMap.mp hName
  simp only [mem_cons, not_mem_nil, or_false] at hName
  rcases hName with rfl | rfl
  all_goals exact prepend_notMem (by decide) _

section WellNamed

variable (hNamed : WellNamed schema) {scope : Scope}

include hNamed

theorem clean_of_package (h : scope ∈ schema.packageScopes) : scope.Clean :=
  clean_packageScopes_iff.mpr ⟨hNamed.package, hNamed.inner⟩ scope h

variable {operation : OperationDecl}

theorem clean_of_encodeParameters (hDecl : decl ∈ schema.structs)
    (h : scope ∈ encodeParameters decl) : scope.Clean := by
  have hName : decl.name ∉ fixed ["encoder"] :=
    fun hMem => (hNamed.structs decl hDecl).2.1 (by
      rw [mem_singleton.mp hMem]
      decide)
  rcases mem_cons.mp h with rfl | h
  · exact clean_of_generatorNames (by decide) (by decide) (by simpa using hName)
  · rw [mem_singleton.mp h]
    exact clean_of_generatorNames (by decide) (by decide) (by simp)

theorem clean_of_decodeScopes (hDecl : decl ∈ schema.structs)
    (h : scope ∈ decodeScopes decl) : scope.Clean := by
  have hName : decl.name ∉ decodeLocals := by
    intro hMem
    have hFixed := (hNamed.structs decl hDecl).2.1
    exact hFixed (mem_append_right (fixed ["os", "std", "ipc_error", "encoder"]) hMem)
  have hOwn : text "ipc_error" ∉ decodeLocals := by decide
  rcases mem_append.mp h with h | h
  · rcases mem_cons.mp h with rfl | h
    · refine clean_of_generatorNames (by decide) (by decide) ?_
      intro name hRefers
      rcases mem_cons.mp hRefers with rfl | hRefers
      · exact hName
      · rwa [mem_singleton.mp hRefers]
    · rw [mem_singleton.mp h]
      exact clean_of_generatorNames (by decide) (by decide) (by simp)
  · obtain ⟨-, -, rfl⟩ := mem_map.mp h
    exact clean_of_generatorNames (by decide) (by decide) (by simp)

theorem clean_of_clientScope : (clientScope schema.service.operations).Clean := by
  refine clean_clientScope_iff.mpr ⟨clientMembers_nodup_iff.mpr ⟨hNamed.methods, ?_⟩, ?_, ?_⟩
  · exact fun operation hOp => (hNamed.members operation hOp).2
  · exact fun operation hOp => (hNamed.members operation hOp).1
  intro operation hOp name hName hMem
  have hEncode : encodeName operation.requestType ∉ clientFixed := prepend_notMem (by decide) _
  have hDecode : decodeName operation.responseType ∉ clientFixed := prepend_notMem (by decide) _
  have hFixed : name ∉ clientFixed := by
    rcases mem_append.mp (show name ∈ [_, _] ++ [_, _] from hName) with hType | hFn
    · exact (hNamed.types operation hOp name hType).1
    simp only [mem_cons, not_mem_nil, or_false] at hFn
    rcases hFn with rfl | rfl
    · exact hEncode
    · exact hDecode
  have hOthers : ∀ other ∈ schema.service.operations,
      name ≠ methodName other ∧ name ≠ operationIdName other := by
    rcases mem_append.mp (show name ∈ [_, _] ++ [_, _] from hName) with hType | hFn
    · exact (hNamed.types operation hOp name hType).2
    · exact hNamed.calls operation hOp name hFn
  rcases mem_clientMembers.mp hMem with hMem | ⟨other, hOther, hSame | hSame⟩
  · exact hFixed hMem
  · exact (hOthers other hOther).1 hSame
  · exact (hOthers other hOther).2 hSame

theorem clean_of_clientMethod (hOp : operation ∈ schema.service.operations)
    (h : scope ∈ clientMethodScopes operation) : scope.Clean := by
  simp only [clientMethodScopes, mem_cons, not_mem_nil, or_false] at h
  rcases h with rfl | rfl
  · refine clean_of_generatorNames (by decide) (by decide) ?_
    intro name hName
    rw [mem_singleton.mp hName]
    exact encodeName_notMem (hNamed.locals operation hOp).2.1 (by decide)
  refine clean_of_generatorNames (by decide) (by decide) ?_
  have hOwn : ∀ name ∈ fixed ["service_id", "connection_"], name ∉ fixed ["request",
      "response_packet_buffer", "request_storage", "encoder", "encode_result", "call_result",
      "inbound", "decoder"] := by decide
  intro name hName
  rcases mem_append.mp hName with hName | hName
  · simp only [mem_cons, not_mem_nil, or_false] at hName
    rcases hName with rfl | rfl
    · exact append_notMem (by decide) _
    · exact prepend_notMem (by decide) _
  · exact hOwn name hName

theorem clean_of_serverScope : (serverScope schema.service.operations).Clean := by
  refine ⟨hNamed.methods, ?_, ?_⟩
  · intro name hName
    obtain ⟨operation, hOp, rfl⟩ := mem_map.mp hName
    exact (hNamed.members operation hOp).1
  intro name hName hMem
  obtain ⟨operation, hOp, hType⟩ := mem_flatMap.mp hName
  obtain ⟨other, hOther, rfl⟩ := mem_map.mp hMem
  exact ((hNamed.types operation hOp _ hType).2 other hOther).1 rfl

theorem clean_of_serverMethod (hOp : operation ∈ schema.service.operations)
    (h : scope ∈ serverMethodScopes operation) : scope.Clean := by
  simp only [serverMethodScopes, mem_cons, not_mem_nil, or_false] at h
  rcases h with rfl | rfl
  · refine clean_of_generatorNames (by decide) (by decide) ?_
    intro name hName hMem
    rw [mem_singleton.mp hName] at hMem
    exact (hNamed.locals operation hOp).1 (mem_singleton.mp hMem)
  · exact clean_of_generatorNames (by decide) (by decide) (by simp)

theorem clean_of_dispatchCase (hOp : operation ∈ schema.service.operations)
    (h : scope ∈ dispatchCaseScopes operation) : scope.Clean := by
  simp only [dispatchCaseScopes, mem_cons, not_mem_nil, or_false] at h
  rcases h with rfl | rfl
  · refine clean_of_generatorNames (by decide) (by decide) ?_
    intro name hName
    rw [mem_singleton.mp hName]
    exact prepend_notMem (by decide) _
  refine clean_of_generatorNames (by decide) (by decide) ?_
  have hOwn : ∀ name ∈ fixed ["implementation_", "channel_"], name ∉ dispatchLocals ++
      fixed ["decoder", "request_result", "response_result", "response_storage", "encoder",
        "encode_result"] := by decide
  intro name hName
  rcases mem_cons.mp hName with rfl | hName
  · exact encodeName_notMem (hNamed.locals operation hOp).2.2 (by decide)
  · exact hOwn name hName

variable (hValid : schema.Valid)

include hValid

variable {others : List Text}

/-- The namespace with further names, none of which is a struct's. -/
theorem clean_namespace (hOthers : others.Nodup)
    (hKeyword : ∀ name ∈ others, name ∉ keywords ∧ name ∉ libraries)
    (hApart : ∀ decl ∈ schema.structs, decl.name ∉ others) :
    (schema.namespaceScope others).Clean := by
  refine (clean_namespaceScope_iff hValid.names).mpr ⟨fun decl hDecl => ?_, hOthers, hKeyword⟩
  obtain ⟨hNot, hFixed, -⟩ := hNamed.structs decl hDecl
  exact ⟨hNot, fun hMem => hFixed (mem_append_left _ hMem), hApart decl hDecl⟩

/-- The namespace with the codec functions and further names. -/
theorem clean_functions (hOthers : others.Nodup)
    (hKeyword : ∀ name ∈ others, name ∉ keywords ∧ name ∉ libraries ∧ name ∉ schema.functionNames)
    (hApart : ∀ decl ∈ schema.structs, decl.name ∉ others) :
    (schema.namespaceScope (schema.functionNames ++ others)).Clean := by
  have hFn : ∀ name ∈ schema.functionNames, name ∉ keywords ∧ name ∉ libraries := by
    intro name hName
    refine ⟨functionName_notMem (fun keyword h => ?_) (fun keyword h => ?_) hName,
      functionName_notMem (by decide) (by decide) hName⟩
    all_goals exact (keywords_apart keyword h).2.2 _ (by decide)
  refine clean_namespace hNamed hValid ?_ ?_ ?_
  · refine nodup_append.mpr ⟨functionNames_nodup_iff.mpr hNamed.functions, hOthers, ?_⟩
    rintro name hName other hOther rfl
    exact (hKeyword name hOther).2.2 hName
  · intro name hName
    rcases mem_append.mp hName with hName | hName
    · exact hFn name hName
    · exact ⟨(hKeyword name hName).1, (hKeyword name hName).2.1⟩
  intro decl hDecl hMem
  rcases mem_append.mp hMem with hMem | hMem
  · obtain ⟨other, hOther, hSame | hSame⟩ := mem_functionNames.mp hMem
    · exact (hNamed.apart decl hDecl other hOther).1 hSame
    · exact (hNamed.apart decl hDecl other hOther).2 hSame
  · exact hApart decl hDecl hMem

theorem clean_of_typesHeader (h : scope ∈ typesHeader schema) : scope.Clean := by
  rcases mem_append.mp h with h | h
  · exact clean_of_package hNamed h
  rcases mem_cons.mp h with rfl | h
  · exact clean_namespace hNamed hValid nodup_nil (by simp) (by simp)
  · obtain ⟨decl, hDecl, rfl⟩ := mem_map.mp h
    exact (clean_structScope_iff (hValid.structs decl hDecl).names).mpr (hNamed.fields decl hDecl)

theorem clean_of_codecHeader (h : scope ∈ codecHeader schema) : scope.Clean := by
  rcases mem_append.mp h with h | h
  · exact clean_of_package hNamed h
  rcases mem_cons.mp h with rfl | h
  · rw [← append_nil schema.functionNames]
    exact clean_functions hNamed hValid nodup_nil (by simp) (by simp)
  obtain ⟨decl, hDecl, h⟩ := mem_flatMap.mp h
  rcases mem_append.mp h with h | h
  · exact clean_of_encodeParameters hNamed hDecl h
  · rw [mem_singleton.mp h]
    exact clean_of_generatorNames (by decide) (by decide) (by simp)

theorem clean_of_codecSource (h : scope ∈ codecSource schema) : scope.Clean := by
  have hOwn : text "ipc_error" ∈ generatorNames := by decide
  rcases mem_append.mp h with h | h
  · rcases mem_append.mp h with h | h
    · exact clean_of_package hNamed h
    · rcases mem_cons.mp h with rfl | h
      · refine clean_functions hNamed hValid (by decide) ?_ ?_
        · intro name hName
          rw [mem_singleton.mp hName]
          refine ⟨fun hMem => (keywords_apart _ hMem).1 hOwn, by decide, fun hMem => ?_⟩
          exact (functionName_notMem (by decide) (by decide) hMem :
            text "ipc_error" ∉ fixed ["ipc_error"]) mem_cons_self
        · intro decl hDecl hMem
          refine (hNamed.structs decl hDecl).2.1 ?_
          rw [mem_singleton.mp hMem]
          decide
      · rw [mem_singleton.mp h]
        exact clean_of_generatorNames (by decide) (by decide) (by simp)
  · obtain ⟨decl, hDecl, h⟩ := mem_flatMap.mp h
    rcases mem_append.mp h with h | h
    · exact clean_of_encodeParameters hNamed hDecl h
    rcases mem_cons.mp h with rfl | h
    · exact (clean_encodeScope_iff (hValid.structs decl hDecl).names).mpr
        (hNamed.strings decl hDecl)
    · exact clean_of_decodeScopes hNamed hDecl h

theorem clean_of_clientHeader (h : scope ∈ clientHeader schema) : scope.Clean := by
  rcases mem_append.mp h with h | h
  · rcases mem_append.mp h with h | h
    · exact clean_of_package hNamed h
    · simp only [mem_cons, not_mem_nil, or_false] at h
      rcases h with rfl | rfl | rfl
      · refine clean_functions hNamed hValid (nodup_singleton _) ?_ ?_
        · intro name hName
          rw [mem_singleton.mp hName]
          exact ⟨append_not_keyword (by decide) _, append_notMem (by decide) _,
            fun hMem => functionName_ne_className hMem (any_eq_true.mp (by decide)) rfl⟩
        · intro decl hDecl hMem
          exact (hNamed.structs decl hDecl).2.2 (mem_append_left [_, _] hMem)
      · exact clean_of_clientScope hNamed
      · exact clean_of_generatorNames (by decide) (by decide) (by decide)
  · obtain ⟨operation, hOp, h⟩ := mem_flatMap.mp h
    exact clean_of_clientMethod hNamed hOp h

theorem clean_of_serverHeader (h : scope ∈ serverHeader schema) : scope.Clean := by
  rcases mem_append.mp h with h | h
  · rcases mem_append.mp h with h | h
    · exact clean_of_package hNamed h
    · simp only [mem_cons, not_mem_nil, or_false] at h
      rcases h with rfl | rfl | rfl | rfl | rfl
      · have hDifferent : schema.serverName ≠ schema.dispatcherName := by
          intro hSame
          have hEnds : text "Server" = text "Dispatcher" := append_cancel_left hSame
          exact absurd hEnds (by decide)
        refine clean_functions hNamed hValid (by simpa using hDifferent) ?_ ?_
        · intro name hName
          simp only [mem_cons, not_mem_nil, or_false] at hName
          rcases hName with rfl | rfl
          all_goals
            exact ⟨append_not_keyword (by decide) _, append_notMem (by decide) _,
              fun hMem => functionName_ne_className hMem (any_eq_true.mp (by decide)) rfl⟩
        · intro decl hDecl hMem
          exact (hNamed.structs decl hDecl).2.2 (mem_cons_of_mem _ hMem)
      · exact clean_of_serverScope hNamed
      · exact clean_of_dispatcherScope schema
      all_goals exact clean_of_generatorNames (by decide) (by decide) (by decide)
  · obtain ⟨operation, hOp, h⟩ := mem_flatMap.mp h
    rcases mem_append.mp h with h | h
    · exact clean_of_serverMethod hNamed hOp h
    · exact clean_of_dispatchCase hNamed hOp h

theorem clean_of_wellNamed (h : scope ∈ generatedScopes schema) : scope.Clean := by
  simp only [generatedScopes, mem_append] at h
  rcases h with (((h | h) | h) | h) | h
  · exact clean_of_typesHeader hNamed hValid h
  · exact clean_of_codecHeader hNamed hValid h
  · exact clean_of_codecSource hNamed hValid h
  · exact clean_of_clientHeader hNamed hValid h
  · exact clean_of_serverHeader hNamed hValid h

end WellNamed

/-- The names in the files generated for an accepted text stay apart exactly if
those of the schema are well chosen. -/
theorem generated_names_iff {source : Text} {schema : Schema}
    (h : compileText source = .ok schema) :
    (∀ scope ∈ generatedScopes schema, scope.Clean) ↔ WellNamed schema := by
  have hValid := valid_of_compileText h
  constructor
  · exact fun hClean => wellNamed_of_clean hClean hValid
  · exact fun hNamed scope hScope => clean_of_wellNamed hNamed hValid hScope

/-- The echo schema has no clash. -/
theorem echo_names : (∀ scope ∈ generatedScopes echoSchema, scope.Clean) ↔ WellNamed echoSchema :=
  generated_names_iff echoSource_accepted

/-- A message with a string called `body`, whose size gets the name of the size of
the whole. -/
def mailSource : Text :=
  text "package os.test.mail; " ++ text "struct Mail \x7b string<256> body = 1; \x7d " ++
    text "service Post \x7b id 1; version 1; " ++
    text "operation Send = 1 \x7b request Mail; response Mail; \x7d \x7d"

def mail : StructDecl where
  name := text "Mail"
  fields := [{ name := text "body"
               type := .string 256
               id := 1
               line := 1
               column := 37 }]
  line := 1
  column := 23

def mailSchema : Schema where
  package := text "os.test.mail"
  structs := [mail]
  service :=
    { name := text "Post"
      id := 1
      version := 1
      operations := [{ name := text "Send"
                       id := 1
                       requestType := text "Mail"
                       responseType := text "Mail"
                       line := 1
                       column := 93 }]
      line := 1
      column := 61 }

/-- The message with a string called `body` compiles, and its encoder declares one name twice. -/
theorem mail_names_clash : ¬ ∀ (source : Text) (schema : Schema),
    compileText source = .ok schema → ∀ scope ∈ generatedScopes schema, scope.Clean := by
  intro h
  have hAcc : compileText mailSource = .ok mailSchema := by decide +kernel
  have hScope : (encodeScope mail).Clean :=
    clean_codec (h _ _ hAcc) (mem_singleton.mpr rfl)
      (mem_append_right _ mem_cons_self)
  have hTwice : ¬ (encodeScope mail).declares.Nodup := by decide
  exact hTwice hScope.1

end Enml.Osidlc
