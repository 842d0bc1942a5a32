import Enml.Core.Result
import Enml.Osidlc.Compiler

/-! What the front end of `osidlc` promises about a schema it accepts, and that
the bound on the parser's loops is never what stops it. -/
namespace Enml.Osidlc

open Enml.Core List OperationDecl

theorem structMaxWireSize_eq (decl : StructDecl) :
    structMaxWireSize decl = 4 + (decl.fields.map fieldMaxWireSize).sum := by
  have hFold : ∀ (fields : List FieldDecl) (total : Nat),
      fields.foldl (fun total field => total + fieldMaxWireSize field) total =
        total + (fields.map fieldMaxWireSize).sum := by
    intro fields
    induction fields with
    | nil => simp
    | cons _ _ ih =>
      intro total
      rw [foldl_cons, ih, map_cons, sum_cons]
      omega
  exact hFold _ _

/-- A struct that can be generated: its fields have different names, their ids
increase, and its largest message fits a packet. -/
structure StructDecl.Valid (decl : StructDecl) : Prop where
  names : (decl.fields.map FieldDecl.name).Nodup
  ids : (0 :: decl.fields.map FieldDecl.id).Pairwise (· < ·)
  size : structMaxWireSize decl ≤ maxInlinePayload

structure Schema.Valid (schema : Schema) : Prop where
  names : (schema.structs.map StructDecl.name).Nodup
  structs : ∀ decl ∈ schema.structs, decl.Valid
  service : schema.service.name ∉ schema.structs.map StructDecl.name
  operations : (schema.service.operations.map OperationDecl.name).Nodup
  ids : (schema.service.operations.map OperationDecl.id).Nodup
  types : ∀ operation ∈ schema.service.operations,
    operation.requestType ∈ schema.structs.map StructDecl.name ∧
      operation.responseType ∈ schema.structs.map StructDecl.name

variable {decl : StructDecl}

/-- The loop over the fields from what it has seen. The test for a repeated id
is covered by the ids having to increase. -/
theorem validateFields_eq_ok_iff {seen : FieldsSeen} {fields : List FieldDecl}
    (hIds : ∀ id ∈ seen.ids, id ≤ seen.previousId) :
    validateFields decl seen fields = .ok () ↔
      (∀ field ∈ fields, field.name ∉ seen.names) ∧ (fields.map FieldDecl.name).Nodup ∧
        (seen.previousId :: fields.map FieldDecl.id).Pairwise (· < ·) ∧ (fields = [] ∨
            seen.maximumBody + (fields.map fieldMaxWireSize).sum + 4 ≤ maxInlinePayload) := by
  induction fields generalizing seen with
  | nil => simp [validateFields]
  | cons field _ ih =>
    have hNext : ∀ id ∈ (seen.next field).ids, seen.previousId < field.id →
        id ≤ (seen.next field).previousId := by
      intro id hId hLess
      rcases mem_cons.mp hId with rfl | hId
      · exact Nat.le_refl _
      · have := hIds id hId
        show id ≤ field.id
        omega
    rw [validateFields]
    split_ifs with hName hSame hOrder hSize
    · simp [FieldDecl.fail, hName]
    · have := hIds _ hSame
      simp only [FieldDecl.fail, reduceCtorEq, List.map_cons, List.pairwise_cons, false_iff]
      rintro ⟨-, -, ⟨hLess, -⟩, -⟩
      have := hLess field.id mem_cons_self
      omega
    · simp only [FieldDecl.fail, reduceCtorEq, List.map_cons, List.pairwise_cons, false_iff]
      rintro ⟨-, -, ⟨hLess, -⟩, -⟩
      have := hLess field.id mem_cons_self
      omega
    · simp only [StructDecl.fail, reduceCtorEq, List.map_cons, List.sum_cons, false_iff]
      rintro ⟨-, -, -, hNone | hFits⟩
      · cases hNone
      · simp only [FieldsSeen.next] at hSize
        omega
    · rw [ih fun id hId => hNext id hId (by omega)]
      simp only [FieldsSeen.next, mem_cons, map_cons, nodup_cons,
        pairwise_cons, sum_cons, not_or, mem_map] at hSize ⊢
      constructor
      · rintro ⟨hFresh, hNodup, hIncreasing, hRest⟩
        refine ⟨?_, ⟨?_, hNodup⟩, ⟨?_, hIncreasing⟩, ?_⟩
        · rintro f (rfl | hf)
          · exact hName
          · exact (hFresh f hf).2
        · rintro ⟨f, hf, hEq⟩
          exact (hFresh f hf).1 hEq
        · rintro id (rfl | ⟨f, hf, rfl⟩)
          · omega
          · have := hIncreasing.1 f.id ⟨f, hf, rfl⟩
            omega
        rcases hRest with rfl | hRest
        · simp only [map_nil, sum_nil]
          omega
        · omega
      · rintro ⟨hFresh, ⟨hNew, hNodup⟩, ⟨-, hIncreasing⟩, hRest⟩
        refine ⟨?_, hNodup, hIncreasing, ?_⟩
        · exact fun f hf => ⟨fun hEq => hNew ⟨f, hf, hEq⟩, hFresh f (.inr hf)⟩
        · simp only [false_or] at hRest
          omega

theorem validateFields_eq_ok_iff_valid :
    validateFields decl {} decl.fields = .ok () ↔ decl.Valid := by
  have hSmall : 4 ≤ maxInlinePayload := by decide
  rw [validateFields_eq_ok_iff (by simp)]
  constructor
  · rintro ⟨-, hNames, hIds, hSize⟩
    refine ⟨hNames, hIds, ?_⟩
    rw [structMaxWireSize_eq]
    rcases hSize with hNone | hSize
    · simp [hNone, hSmall]
    · simp only at hSize
      omega
  · rintro ⟨hNames, hIds, hSize⟩
    rw [structMaxWireSize_eq] at hSize
    refine ⟨by simp, hNames, hIds, .inr ?_⟩
    simp only
    omega

theorem validateStructs_eq_ok_iff {typeNames : List Text} {structs : List StructDecl} :
    validateStructs typeNames structs = .ok () ↔
      (∀ decl ∈ structs, decl.name ∉ typeNames) ∧ (structs.map StructDecl.name).Nodup ∧
        ∀ decl ∈ structs, decl.Valid := by
  induction structs generalizing typeNames with
  | nil => simp [validateStructs]
  | cons _ _ ih =>
    rw [validateStructs]
    split_ifs with hName
    · simp [StructDecl.fail, hName]
    rw [check_eq_ok_iff, validateFields_eq_ok_iff_valid, ih]
    simp only [forall_mem_cons, map_cons, nodup_cons, mem_map]
    simp only [mem_cons, not_or]
    constructor
    · rintro ⟨hDecl, hFresh, hNodup, hRest⟩
      refine ⟨⟨hName, fun d hd => (hFresh d hd).2⟩, ⟨?_, hNodup⟩, hDecl, hRest⟩
      rintro ⟨d, hd, hEq⟩
      exact (hFresh d hd).1 hEq
    · rintro ⟨⟨-, hFresh⟩, ⟨hNew, hNodup⟩, hDecl, hRest⟩
      exact ⟨hDecl, fun d hd => ⟨fun hEq => hNew ⟨d, hd, hEq⟩, hFresh d hd⟩, hNodup, hRest⟩

theorem validateOperations_eq_ok_iff {typeNames names : List Text} {ids : List Nat}
    {operations : List OperationDecl} :
    validateOperations typeNames names ids operations = .ok () ↔
      (∀ operation ∈ operations, operation.name ∉ names ∧ operation.id ∉ ids) ∧
        (operations.map OperationDecl.name).Nodup ∧ (operations.map OperationDecl.id).Nodup ∧
          ∀ operation ∈ operations,
            operation.requestType ∈ typeNames ∧ operation.responseType ∈ typeNames := by
  induction operations generalizing names ids with
  | nil => simp [validateOperations]
  | cons _ _ ih =>
    rw [validateOperations]
    split_ifs with hName hId hReq hResp
    · simp [fail, hName]
    · simp [fail, hId]
    · rw [ih]
      simp only [forall_mem_cons, map_cons, nodup_cons, mem_map]
      simp only [mem_cons, not_or]
      constructor
      · rintro ⟨hFresh, hNames, hIds, hTypes⟩
        refine ⟨⟨⟨hName, hId⟩, fun o ho => ⟨(hFresh o ho).1.2, (hFresh o ho).2.2⟩⟩,
          ⟨?_, hNames⟩, ⟨?_, hIds⟩, ⟨hReq, hResp⟩, hTypes⟩
        · rintro ⟨o, ho, hEq⟩
          exact (hFresh o ho).1.1 hEq
        · rintro ⟨o, ho, hEq⟩
          exact (hFresh o ho).2.1 hEq
      · rintro ⟨⟨-, hFresh⟩, ⟨hNewName, hNames⟩, ⟨hNewId, hIds⟩, -, hTypes⟩
        refine ⟨fun o ho => ⟨⟨fun hEq => hNewName ⟨o, ho, hEq⟩, (hFresh o ho).1⟩,
          fun hEq => hNewId ⟨o, ho, hEq⟩, (hFresh o ho).2⟩, hNames, hIds, hTypes⟩
    · simp [fail, hResp]
    · simp [fail, hReq]

variable {schema : Schema}

theorem validateSchema_eq_ok_iff : validateSchema schema = .ok () ↔ schema.Valid := by
  rw [validateSchema, check_eq_ok_iff, validateStructs_eq_ok_iff]
  simp only
  split_ifs with hService
  · simp only [and_false, false_iff]
    exact fun h => h.service hService
  rw [validateOperations_eq_ok_iff]
  constructor
  · rintro ⟨⟨-, hNames, hStructs⟩, -, hOps, hIds, hTypes⟩
    exact ⟨hNames, hStructs, hService, hOps, hIds, hTypes⟩
  · rintro ⟨hNames, hStructs, -, hOps, hIds, hTypes⟩
    exact ⟨⟨by simp, hNames, hStructs⟩, by simp, hOps, hIds, hTypes⟩

theorem valid_of_compileText {source : Text} (h : compileText source = .ok schema) :
    schema.Valid := by
  obtain ⟨tokens, -, h⟩ := bind_ok h
  obtain ⟨parsed, -, h⟩ := bind_ok h
  obtain ⟨hValid, h⟩ := check_eq_ok_iff.mp h
  cases h
  exact validateSchema_eq_ok_iff.mp hValid

namespace Parser

variable {α β : Type} {p : Parser α} {f : α → Parser β} {tokens : List Token} {fuel : Nat}

/-- The parser took at least `count` tokens, or failed with a diagnostic. -/
def Taken (count : Nat) (tokens : List Token) : Except Failure (α × List Token) → Prop
  | .ok (_, rest) => rest.length + count ≤ tokens.length
  | .error e => e ≠ .exhausted

/-- On at most `bound` tokens the parser takes at least `count` of them. -/
def Consumes (bound count : Nat) (p : Parser α) : Prop :=
  ∀ tokens, tokens.length ≤ bound → Taken count tokens (p tokens)

variable {bound m n : Nat}

theorem Taken.bind (hFirst : Taken m tokens (p tokens))
    (hRest : ∀ a rest, rest.length + m ≤ tokens.length → Taken n rest (f a rest)) :
    Taken (m + n) tokens ((p >>= f) tokens) := by
  show Taken (m + n) tokens (p tokens >>= fun r => f r.1 r.2)
  cases hRun : p tokens with
  | error =>
    rw [hRun] at hFirst
    exact hFirst
  | ok r =>
    rw [hRun] at hFirst
    have hLeft : r.2.length + m ≤ tokens.length := hFirst
    have hMore := hRest r.1 r.2 hLeft
    show Taken (m + n) tokens (f r.1 r.2)
    cases hRunRest : f r.1 r.2 with
    | error =>
      rw [hRunRest] at hMore
      exact hMore
    | ok q =>
      rw [hRunRest] at hMore
      have hLeftRest : q.2.length + n ≤ r.2.length := hMore
      show q.2.length + (m + n) ≤ tokens.length
      omega

theorem Consumes.bind (hFirst : Consumes bound m p) (hRest : ∀ a, Consumes (bound - m) n (f a)) :
    Consumes bound (m + n) (p >>= f) :=
  fun tokens hBound => (hFirst tokens hBound).bind fun a rest _ => hRest a rest (by omega)

/-- A first step that need not take anything. -/
theorem Consumes.andThen (hFirst : Consumes bound 0 p) (hRest : ∀ a, Consumes bound n (f a)) :
    Consumes bound n (p >>= f) := by
  have h : Consumes bound (0 + n) (p >>= f) := hFirst.bind hRest
  rwa [Nat.zero_add] at h

theorem Consumes.mono (h : Consumes bound m p) (hCnt : n ≤ m) : Consumes bound n p := by
  intro tokens hBound
  have hTaken := h tokens hBound
  cases hRun : p tokens with
  | error =>
    rw [hRun] at hTaken
    exact hTaken
  | ok r =>
    rw [hRun] at hTaken
    have hLeft : r.2.length + m ≤ tokens.length := hTaken
    show r.2.length + n ≤ tokens.length
    omega

theorem Consumes.of_le {bound' : Nat} (h : Consumes bound n p) (hBound : bound' ≤ bound) :
    Consumes bound' n p :=
  fun tokens hTokens => h tokens (Nat.le_trans hTokens hBound)

theorem consumes_pure (a : α) : Consumes bound 0 (pure a : Parser α) := fun _ _ => Nat.le_refl _

theorem consumes_fail (token : Token) (message : String) :
    Consumes bound n (fail token message : Parser α) :=
  fun _ _ => (nofun : Failure.diagnostic token.line token.column message ≠ .exhausted)

theorem consumes_ite {condition : Bool} {p q : Parser α} (hp : Consumes bound n p)
    (hq : Consumes bound n q) : Consumes bound n (if condition then p else q) := by
  split_ifs
  · exact hp
  · exact hq

/-- Looking at the current token takes nothing. -/
theorem consumes_current : Consumes bound 0 current := fun _ _ => Nat.le_refl _

theorem consumes_failHere (message : String) :
    Consumes bound n (current >>= fun token => fail token message : Parser α) :=
  fun tokens hBound => consumes_fail (tokens.headD {}) message tokens hBound

theorem consumes_atEnd : Consumes bound 0 atEnd := fun _ _ => Nat.le_refl _

theorem consumes_matchesIdentifier (identifier : String) :
    Consumes bound 0 (matchesIdentifier identifier) :=
  fun _ _ => Nat.le_refl _

theorem consumes_matchesSymbol (symbol : Char) : Consumes bound 0 (matchesSymbol symbol) :=
  fun _ _ => Nat.le_refl _

theorem advance_apply (tokens : List Token) :
    advance tokens =
      if (tokens.headD {}).kind = .end then .ok ((), tokens) else .ok ((), tokens.tail) := by
  show (if !decide ((tokens.headD {}).kind = .end) then modify tail else pure () : Parser Unit)
    tokens = _
  by_cases hEnd : (tokens.headD {}).kind = .end
  · rw [decide_eq_true hEnd, if_pos hEnd]
    rfl
  · rw [decide_eq_false hEnd, if_neg hEnd]
    rfl

theorem consumes_advance : Consumes bound 0 advance := by
  intro tokens _
  rw [advance_apply]
  split_ifs
  · exact Nat.le_refl _
  · show tokens.tail.length + 0 ≤ tokens.length
    simp

/-- A current token of another kind than `end` is taken. -/
theorem taken_advance {kind : TokenKind} (h : (tokens.headD {}).kind = kind) (hKind : kind ≠ .end) :
    Taken 1 tokens (advance tokens) := by
  rw [advance_apply, if_neg (by rwa [h])]
  cases tokens with
  | nil => exact absurd h.symm hKind
  | cons => exact Nat.le_refl _

theorem consumes_consumeIdentifier : Consumes bound 1 consumeIdentifier := by
  intro tokens hBound
  show Taken 1 tokens ((if (tokens.headD {}).kind ≠ .identifier then fail _ _
    else advance >>= fun _ => pure (tokens.headD {}).text : Parser Text) tokens)
  split_ifs with hKind
  · exact consumes_fail _ _ tokens hBound
  · exact (taken_advance (not_not.mp hKind) nofun).bind fun _ rest _ =>
      consumes_pure _ rest (Nat.le_refl _)

/-- A token of one kind and text is taken, or the parser fails here. -/
theorem consumes_expect {kind : TokenKind} {wanted : Text} {message : String}
    (hKind : kind ≠ .end) :
    Consumes bound 1 fun tokens => (if !(decide ((tokens.headD {}).kind = kind) &&
      decide ((tokens.headD {}).text = wanted)) then current >>= fun token => fail token message
      else advance : Parser Unit) tokens := by
  intro tokens hBound
  dsimp only
  split_ifs with hMatch
  · exact consumes_failHere _ tokens hBound
  · simp only [Bool.not_eq_true', Bool.not_eq_false, Bool.and_eq_true, decide_eq_true_eq] at hMatch
    exact taken_advance hMatch.1 hKind

theorem consumes_consumeKeyword (keyword : String) : Consumes bound 1 (consumeKeyword keyword) :=
  consumes_expect nofun

theorem consumes_consumeSymbol (symbol : Char) : Consumes bound 1 (consumeSymbol symbol) :=
  consumes_expect nofun

theorem consumes_consumeNumber : Consumes bound 1 consumeNumber := by
  intro tokens hBound
  have hCurrent : ∀ f : Token → Parser Nat, (current >>= f) tokens = f (tokens.headD {}) tokens :=
    fun _ => rfl
  rw [consumeNumber, hCurrent]
  split_ifs with hKind
  · exact consumes_fail _ _ tokens hBound
  cases numberOf (tokens.headD {}).text with
  | none => exact consumes_fail _ _ tokens hBound
  | some =>
    exact (taken_advance (not_not.mp hKind) (by rintro ⟨⟩)).bind fun _ rest _ =>
      consumes_pure _ rest (Nat.le_refl _)

theorem consumes_consumeBounded (maximum : Nat) (message : String) :
    Consumes bound 1 (consumeBounded maximum message) :=
  consumes_consumeNumber.bind fun _ => consumes_ite (consumes_failHere _) (consumes_pure _)

/-- With no turn left there is no token left either, so a loop ends there. -/
theorem consumes_zero (h : Taken n [] (p [])) : Consumes 0 n p := by
  intro tokens hNone
  obtain rfl := length_eq_zero_iff.mp (Nat.le_zero.mp hNone)
  exact h

theorem consumes_parseSegments (fuel : Nat) (package : Text) :
    Consumes fuel 0 (parseSegments fuel package) := by
  induction fuel generalizing package with
  | zero => exact consumes_zero (Nat.le_refl _)
  | succ _ ih =>
    rw [parseSegments]
    refine (consumes_matchesSymbol '.').andThen fun _ => consumes_ite (consumes_pure _) ?_
    refine (consumes_advance.andThen fun _ => consumes_consumeIdentifier.bind fun segment =>
      (ih _).of_le ?_).mono (Nat.zero_le _)
    omega

theorem consumes_parsePackage : Consumes (fuel + 1) 1 (parsePackage fuel) :=
  ((consumes_consumeKeyword _).bind fun _ => consumes_consumeIdentifier.bind fun _ =>
    ((consumes_parseSegments fuel _).of_le (by omega)).bind fun _ =>
      (consumes_consumeSymbol ';').bind fun _ => consumes_pure _).mono (by omega)

theorem consumes_parseType : Consumes bound 0 parseType := by
  refine (consumes_matchesIdentifier _).andThen fun _ => consumes_ite
    (consumes_advance.andThen fun _ => consumes_pure _) ?_
  refine (consumes_matchesIdentifier _).andThen fun _ => consumes_ite
    (consumes_advance.andThen fun _ => consumes_pure _) ?_
  refine (consumes_matchesIdentifier _).andThen fun _ => consumes_ite ?_ (consumes_failHere _)
  exact (consumes_advance.andThen fun _ => (consumes_consumeSymbol _).bind fun _ =>
    (consumes_consumeBounded _ _).bind fun _ => (consumes_consumeSymbol _).bind fun _ =>
      consumes_pure _).mono (Nat.zero_le _)

theorem consumes_parseField : Consumes bound 1 parseField :=
  (consumes_current.andThen fun _ => consumes_parseType.andThen fun _ =>
    consumes_consumeIdentifier.bind fun _ => (consumes_consumeSymbol _).bind fun _ =>
      (consumes_consumeBounded _ _).bind fun _ => (consumes_consumeSymbol _).bind fun _ =>
        consumes_pure _).mono (by omega)

theorem consumes_parseFields (fuel : Nat) (fields : List FieldDecl) :
    Consumes fuel 0 (parseFields fuel fields) := by
  induction fuel generalizing fields with
  | zero => exact consumes_zero (consumes_failHere "unterminated struct" [] (Nat.le_refl _))
  | succ _ ih =>
    rw [parseFields]
    refine (consumes_matchesSymbol '}').andThen fun _ => consumes_ite (consumes_pure _) ?_
    refine consumes_atEnd.andThen fun _ => consumes_ite (consumes_failHere _) ?_
    refine (consumes_parseField.bind fun field => (ih _).of_le ?_).mono (Nat.zero_le _)
    omega

theorem consumes_parseStruct : Consumes (fuel + 1) 1 (parseStruct fuel) :=
  (consumes_current.andThen fun _ => (consumes_consumeKeyword _).bind fun _ =>
    consumes_consumeIdentifier.bind fun _ => (consumes_consumeSymbol _).bind fun _ =>
      ((consumes_parseFields fuel _).of_le (by omega)).bind fun _ =>
        consumes_advance.andThen fun _ => consumes_pure _).mono (by omega)

theorem consumes_parseOperation : Consumes bound 1 parseOperation :=
  (consumes_current.andThen fun _ => (consumes_consumeKeyword _).bind fun _ =>
    consumes_consumeIdentifier.bind fun _ => (consumes_consumeSymbol _).bind fun _ =>
      (consumes_consumeBounded _ _).bind fun _ => (consumes_consumeSymbol _).bind fun _ =>
        (consumes_consumeKeyword _).bind fun _ => consumes_consumeIdentifier.bind fun _ =>
          (consumes_consumeSymbol _).bind fun _ => (consumes_consumeKeyword _).bind fun _ =>
            consumes_consumeIdentifier.bind fun _ => (consumes_consumeSymbol _).bind fun _ =>
              (consumes_consumeSymbol _).bind fun _ => consumes_pure _).mono (by omega)

theorem consumes_parseServiceItem (body : ServiceBody) :
    Consumes bound 1 (parseServiceItem body) := by
  have hNum {maximum : Nat} {message : String} {build : Nat → ServiceBody} {bound : Nat} :
      Consumes bound 1 (do
        advance
        let value ← consumeBounded maximum message
        consumeSymbol ';'
        return build value) :=
    (consumes_advance.andThen fun _ => (consumes_consumeBounded _ _).bind fun _ =>
      (consumes_consumeSymbol _).bind fun _ => consumes_pure _).mono (by omega)
  refine (consumes_matchesIdentifier _).andThen fun _ => consumes_ite
    (consumes_ite (consumes_failHere _) hNum) ?_
  refine (consumes_matchesIdentifier _).andThen fun _ => consumes_ite
    (consumes_ite (consumes_failHere _) hNum) ?_
  exact (consumes_matchesIdentifier _).andThen fun _ => consumes_ite
    (consumes_parseOperation.bind fun _ => consumes_pure _) (consumes_failHere _)

theorem consumes_parseServiceBody (fuel : Nat) (body : ServiceBody) :
    Consumes fuel 0 (parseServiceBody fuel body) := by
  induction fuel generalizing body with
  | zero => exact consumes_zero (consumes_failHere "unterminated service" [] (Nat.le_refl _))
  | succ _ ih =>
    rw [parseServiceBody]
    refine (consumes_matchesSymbol '}').andThen fun _ => consumes_ite (consumes_pure _) ?_
    refine consumes_atEnd.andThen fun _ => consumes_ite (consumes_failHere _) ?_
    refine ((consumes_parseServiceItem body).bind fun body => (ih _).of_le ?_).mono
      (Nat.zero_le _)
    omega

theorem consumes_parseService : Consumes (fuel + 1) 1 (parseService fuel) := by
  refine (consumes_current.andThen fun location => (consumes_consumeKeyword _).bind fun _ =>
    consumes_consumeIdentifier.bind fun _ => (consumes_consumeSymbol _).bind fun _ =>
      ((consumes_parseServiceBody fuel _).of_le ?_).bind fun body =>
        consumes_advance.andThen fun _ => ?_).mono (?_ : 1 ≤ 1 + (1 + (1 + (0 + 0))))
  · omega
  · cases body.id with
    | none => exact consumes_fail _ _
    | some =>
      cases body.version with
      | none => exact consumes_fail _ _
      | some => exact consumes_pure _
  · omega

theorem consumes_parseDeclaration (draft : Draft) :
    Consumes (fuel + 1) 1 (parseDeclaration fuel draft) := by
  refine (consumes_matchesIdentifier _).andThen fun _ => consumes_ite
    (consumes_ite (consumes_failHere _) (consumes_parsePackage.bind fun _ => consumes_pure _)) ?_
  refine (consumes_matchesIdentifier _).andThen fun _ => consumes_ite
    (consumes_parseStruct.bind fun _ => consumes_pure _) ?_
  exact (consumes_matchesIdentifier _).andThen fun _ => consumes_ite
    (consumes_ite (consumes_failHere _) (consumes_parseService.bind fun _ => consumes_pure _))
    (consumes_failHere _)

theorem consumes_parseDeclarations (fuel : Nat) (draft : Draft) :
    Consumes fuel 0 (parseDeclarations fuel draft) := by
  induction fuel generalizing draft with
  | zero => exact consumes_zero (Nat.le_refl _)
  | succ _ ih =>
    rw [parseDeclarations]
    refine consumes_atEnd.andThen fun _ => consumes_ite (consumes_pure _) ?_
    refine ((consumes_parseDeclaration draft).bind fun draft => (ih _).of_le ?_).mono
      (Nat.zero_le _)
    omega

theorem parse_ne_exhausted (tokens : List Token) : parse tokens ≠ .error .exhausted := by
  have hTaken := consumes_parseDeclarations tokens.length {} tokens (Nat.le_refl _)
  rw [parse]
  cases hRun : parseDeclarations tokens.length {} tokens with
  | error =>
    rw [hRun] at hTaken
    exact fun h => hTaken (Except.error.inj h)
  | ok r =>
    obtain ⟨⟨package, structs, service⟩, rest⟩ := r
    cases package with
    | none => exact nofun
    | some =>
      cases service with
      | none => exact nofun
      | some => exact nofun

end Parser

theorem lexFrom_ne_exhausted (skip : Nat) (place : Place) (source : Text) :
    lexFrom skip place source ≠ .error .exhausted := by
  induction source generalizing skip place with
  | nil => cases skip <;> exact nofun
  | cons ch rest ih =>
    have hToken : ∀ {skip : Nat} {token : Token}, (do
        let tokens ← lexFrom skip (place.advance ch) rest
        return token :: tokens) ≠ (.error .exhausted : Except Failure (List Token)) :=
      bind_ne_error (ih _ _) fun _ => nofun
    cases skip with
    | succ => exact ih _ _
    | zero =>
      rw [lexFrom]
      simp only
      split_ifs
      · exact ih _ _
      · exact ih _ _
      · exact hToken
      · exact nofun
      iterate 3 exact hToken
      · exact nofun

theorem validateFields_ne_exhausted (decl : StructDecl) (seen : FieldsSeen)
    (fields : List FieldDecl) : validateFields decl seen fields ≠ .error .exhausted := by
  induction fields generalizing seen with
  | nil => exact nofun
  | cons _ _ ih =>
    rw [validateFields]
    split_ifs
    iterate 4 exact nofun
    · exact ih _

theorem validateStructs_ne_exhausted (typeNames : List Text) (structs : List StructDecl) :
    validateStructs typeNames structs ≠ .error .exhausted := by
  induction structs generalizing typeNames with
  | nil => exact nofun
  | cons _ _ ih =>
    rw [validateStructs]
    split_ifs
    · exact nofun
    · exact bind_ne_error (validateFields_ne_exhausted _ _ _) fun _ => ih _

theorem validateOperations_ne_exhausted (typeNames names : List Text) (ids : List Nat)
    (operations : List OperationDecl) :
    validateOperations typeNames names ids operations ≠ .error .exhausted := by
  induction operations generalizing names ids with
  | nil => exact nofun
  | cons _ _ ih =>
    rw [validateOperations]
    split_ifs
    · exact nofun
    · exact nofun
    · exact ih _ _
    all_goals exact nofun

/-- The bound on the loops of the parser is never reached. -/
theorem compileText_ne_exhausted (source : Text) : compileText source ≠ .error .exhausted := by
  refine bind_ne_error (lexFrom_ne_exhausted _ _ _) fun tokens =>
    bind_ne_error (Parser.parse_ne_exhausted tokens) fun schema =>
      bind_ne_error (bind_ne_error (validateStructs_ne_exhausted _ _) fun _ => ?_) fun _ => nofun
  simp only
  split_ifs
  · exact nofun
  · exact validateOperations_ne_exhausted _ _ _ _

/-- A request with a number and a string, and a service that echoes it. -/
def echoSource : Text :=
  text "package os.test.echo; " ++
    text "struct Ping \x7b u32 count = 1; string<16> text = 2; \x7d " ++
    text "service Echo \x7b id 0xF001; version 1; " ++
    text "operation Ping = 1 \x7b request Ping; response Ping; \x7d \x7d"

def pingCount : FieldDecl where
  name := text "count"
  type := .u32
  id := 1
  line := 1
  column := 37

def pingText : FieldDecl where
  name := text "text"
  type := .string 16
  id := 2
  line := 1
  column := 52

def ping : StructDecl where
  name := text "Ping"
  fields := [pingCount, pingText]
  line := 1
  column := 23

def echoSchema : Schema where
  package := text "os.test.echo"
  structs := [ping]
  service :=
    { name := text "Echo"
      id := 0xF001
      version := 1
      operations := [{ name := text "Ping"
                       id := 1
                       requestType := text "Ping"
                       responseType := text "Ping"
                       line := 1
                       column := 112 }]
      line := 1
      column := 75 }

theorem echoSource_accepted : compileText echoSource = .ok echoSchema := by decide +kernel

end Enml.Osidlc
