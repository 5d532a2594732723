import TxGen.Scenario.Results
import TxGen.Scenario.Validation

set_option autoImplicit false

/-! # The shape of saved values

The validator knows the fields of a saved result by their names (`savedFieldType`); a step builds the
value field by field (`StepAnswer.value`). Here the two are compared: every field with a static type is
there and has that type, or is null because it was omitted. -/

namespace TxGen

open RuntimeValue (objectOf orNull)

/-- The value has the static type. -/
def StaticValueType.Admits : StaticValueType → RuntimeValue → Prop
  | .accountRef, .object [("pool", .string _), ("select", .object [("index", .uint _)])] => True
  | .address, .address _ => True
  | .bytes, .bytes _ => True
  | .bytes32, .bytes32 _ => True
  | .uint, .uint _ => True
  | .int, .int _ => True
  | .bool, .bool _ => True
  | .string, .string _ => True
  | .object, .object _ => True
  | _, _ => False

/-- The RPC omitted the field. -/
def StepAnswer.omits : StepAnswer → String → Prop
  | .checkpoint c, "block_hash" => c.blockHash = none
  | .submit _ _ (some r), "receipt.transaction_index" => r.transactionIndex = none
  | .receipt r, "transaction_index" => r.transactionIndex = none
  | .events r _, "transaction_index" => r.transactionIndex = none
  | .log o, "transaction_index" => o.log.transactionIndex = none
  | .log o, "log_index" => o.log.logIndex = none
  | _, _ => False

/-- The answers that a step can give. -/
def StepDef.Produces (step : StepDef) (answer : StepAnswer) : Prop :=
  match step.action, answer with
  | .checkpoint _, .checkpoint _ => True
  | .invoke invoke, .invoke action _ => action = invoke.action
  | .submit submit, .submit template _ r =>
    template = submit.template ∧ (r.isSome = true ↔ submit.awaitMode = some .receipt)
  | .waitReceipt wait, .receipt r => r.status = true ∨ wait.allowRevert = true
  | .waitLog wait, .log o =>
    wait.events = [] ∧ o.log.transactionHash.isSome ∧ o.log.blockHash.isSome ∧
      o.log.blockNumber.isSome
  | .waitLog wait, .events _ logs =>
    wait.events ≠ [] ∧ logs.map Prod.fst = wait.events.map Prod.fst
  | _, _ => False

/-! ## Produced answers -/

section Produced

variable {τ ν : Type} {abi : Abi τ ν} {ctx : RuntimeContext} {world : World ν}

theorem prepareReceiptEvents_ids {events : List (String × ReceiptEventDef)}
    {inputs : List (String × EventInputs ν)}
    (h : prepareReceiptEvents abi ctx events = .ok inputs) :
    inputs.map Prod.fst = events.map Prod.fst := by
  induction events generalizing inputs with
  | nil =>
      obtain rfl := Except.ok.inj h
      rfl
  | cons e events ih =>
      obtain ⟨_, _, h⟩ := bind_eq_ok.1 h
      obtain ⟨_, _, h⟩ := bind_eq_ok.1 h
      obtain ⟨rest, hrest, h⟩ := bind_eq_ok.1 h
      obtain rfl := Except.ok.inj h
      rw [List.map_cons, List.map_cons, ih hrest]

theorem logObservationMetadata_ok {log : EventLog} (h : logObservationMetadata log = .ok ()) :
    log.transactionHash.isSome ∧ log.blockHash.isSome ∧ log.blockNumber.isSome := by
  obtain ⟨_, htx, h⟩ := bind_eq_ok.1 h
  obtain ⟨_, hblock, h⟩ := bind_eq_ok.1 h
  rw [bailIf_eq_ok] at htx hblock h
  exact ⟨Option.isSome_iff_ne_none.2 htx, Option.isSome_iff_ne_none.2 hblock,
    Option.isSome_iff_ne_none.2 h⟩

theorem awaitReceipt_ok {step : SubmitStep} {submission : RpcSubmission} {r : Option ConfirmedReceipt}
    (h : awaitReceipt world step submission = .ok r) :
    r.isSome = true ↔ step.awaitMode = some .receipt := by
  unfold awaitReceipt at h
  split at h
  · rename_i hawait
    obtain ⟨_, _, h⟩ := bind_eq_ok.1 h
    obtain ⟨_, _, h⟩ := bind_eq_ok.1 h
    obtain rfl := Except.ok.inj h
    simp [hawait]
  · rename_i hawait
    obtain rfl := Except.ok.inj h
    simp [hawait]

/-- Waiting for a log gives the log, or a log for each event of the group. -/
theorem perform_waitLog {wait : WaitLogStep} {request : StepRequest ν} {chain : String}
    {answer : StepAnswer} (hrequest : prepareWaitLog abi ctx wait = .ok request)
    (hanswer : perform world chain request = .ok answer) {step : StepDef}
    (hstep : step.action = .waitLog wait) : step.Produces answer := by
  unfold prepareWaitLog at hrequest
  split at hrequest
  · rename_i hevents
    obtain ⟨_, _, hrequest⟩ := bind_eq_ok.1 hrequest
    obtain ⟨_, _, hrequest⟩ := bind_eq_ok.1 hrequest
    obtain ⟨_, _, hrequest⟩ := bind_eq_ok.1 hrequest
    obtain ⟨_, _, hrequest⟩ := bind_eq_ok.1 hrequest
    obtain ⟨_, _, hrequest⟩ := bind_eq_ok.1 hrequest
    obtain rfl := Except.ok.inj hrequest
    obtain ⟨o, _, hanswer⟩ := bind_eq_ok.1 hanswer
    obtain ⟨⟨⟩, hmeta, hanswer⟩ := bind_eq_ok.1 hanswer
    obtain rfl := Except.ok.inj hanswer
    simp only [StepDef.Produces, hstep]
    exact ⟨hevents, logObservationMetadata_ok hmeta⟩
  · rename_i hevents
    split at hrequest
    · cases hrequest
    · obtain ⟨_, _, hrequest⟩ := bind_eq_ok.1 hrequest
      obtain ⟨_, _, hrequest⟩ := bind_eq_ok.1 hrequest
      obtain ⟨inputs, hinputs, hrequest⟩ := bind_eq_ok.1 hrequest
      obtain rfl := Except.ok.inj hrequest
      obtain ⟨⟨r, assigned⟩, _, hanswer⟩ := bind_eq_ok.1 hanswer
      obtain rfl := Except.ok.inj hanswer
      simp only [StepDef.Produces, hstep]
      refine ⟨hevents, ?_⟩
      rw [List.map_map, ← prepareReceiptEvents_ids hinputs]
      rfl

/-- A step that succeeds gives an answer of its kind. -/
theorem executeStep_produces {step : StepDef} {answer : StepAnswer}
    (h : executeStep world abi step ctx = .ok answer) : step.Produces answer := by
  obtain ⟨request, hrequest, hanswer⟩ := bind_eq_ok.1 h
  unfold StepDef.prepare at hrequest
  split at hrequest
  · rename_i hstep
    obtain rfl := Except.ok.inj hrequest
    obtain ⟨c, _, hanswer⟩ := bind_eq_ok.1 hanswer
    obtain rfl := Except.ok.inj hanswer
    simp only [StepDef.Produces, hstep]
  · rename_i hstep
    obtain ⟨_, _, hrequest⟩ := bind_eq_ok.1 hrequest
    obtain rfl := Except.ok.inj hrequest
    obtain ⟨_, _, hanswer⟩ := bind_eq_ok.1 hanswer
    obtain ⟨output, _, hanswer⟩ := bind_eq_ok.1 hanswer
    unfold invokeAnswer at hanswer
    split at hanswer
    · obtain rfl := Except.ok.inj hanswer
      simp only [StepDef.Produces, hstep]
    · cases hanswer
  · rename_i hstep
    obtain ⟨_, _, hrequest⟩ := bind_eq_ok.1 hrequest
    obtain rfl := Except.ok.inj hrequest
    obtain ⟨_, _, hanswer⟩ := bind_eq_ok.1 hanswer
    obtain ⟨r, hr, hanswer⟩ := bind_eq_ok.1 hanswer
    obtain rfl := Except.ok.inj hanswer
    simp only [StepDef.Produces, hstep]
    exact ⟨trivial, awaitReceipt_ok hr⟩
  · rename_i wait hstep
    obtain ⟨_, _, hrequest⟩ := bind_eq_ok.1 hrequest
    obtain ⟨_, _, hrequest⟩ := bind_eq_ok.1 hrequest
    obtain rfl := Except.ok.inj hrequest
    obtain ⟨r, _, hanswer⟩ := bind_eq_ok.1 hanswer
    obtain ⟨⟨⟩, hstatus, hanswer⟩ := bind_eq_ok.1 hanswer
    obtain rfl := Except.ok.inj hanswer
    rw [bailIf_eq_ok] at hstatus
    simp only [StepDef.Produces, hstep]
    show r.status = true ∨ wait.allowRevert = true
    cases hs : r.status <;> cases ha : wait.allowRevert <;> simp_all
  · rename_i wait hstep
    exact perform_waitLog hrequest hanswer hstep

end Produced

/-! ## Fields -/

/-- What is found from a value, and its type. -/
def RuntimeValue.TypedAt (value : RuntimeValue) (path : String) (parts : List String)
    (ty : StaticValueType) (omitted : Prop) : Prop :=
  ∃ v, value.walk path parts = .ok v ∧ (ty.Admits v ∨ v = .null ∧ omitted)

/-- One of the entries is the field, with its type. -/
def HasField (entries : List (String × RuntimeValue)) (name : String) (ty : StaticValueType)
    (omitted : Prop) : Prop :=
  ∃ v, (name, v) ∈ entries ∧ (ty.Admits v ∨ v = .null ∧ omitted)

/-- The names can be the fields of an object. -/
structure FieldNames (names : List String) : Prop where
  nodup : names.Nodup
  single : ∀ name ∈ names, '.' ∉ name.toList

instance (names : List String) : Decidable (FieldNames names) :=
  decidable_of_iff (names.Nodup ∧ ∀ name ∈ names, '.' ∉ name.toList)
    ⟨fun h => ⟨h.1, h.2⟩, fun h => ⟨h.nodup, h.single⟩⟩

theorem objectOf_eq (entries : List (String × RuntimeValue)) :
    objectOf entries = .object (OrdMap.ofList entries) := rfl

/-- Resolving a field of an object goes on with the value of the field. -/
theorem walk_objectOf {entries : List (String × RuntimeValue)} (hnodup : (entries.map Prod.fst).Nodup)
    {name : String} {v : RuntimeValue} (h : (name, v) ∈ entries) (path : String)
    (parts : List String) : (objectOf entries).walk path (name :: parts) = v.walk path parts := by
  rw [objectOf_eq, RuntimeValue.walk, OrdMap.get?_ofList hnodup h]

theorem HasField.typedAt {entries : List (String × RuntimeValue)} {name : String}
    {ty : StaticValueType} {omitted : Prop} (h : HasField entries name ty omitted)
    (hnames : FieldNames (entries.map Prod.fst)) (path : String) :
    (objectOf entries).TypedAt path (components name) ty omitted := by
  obtain ⟨v, hmem, hty⟩ := h
  have hname : name ∈ entries.map Prod.fst := List.mem_map.2 ⟨_, hmem, rfl⟩
  refine ⟨v, ?_, hty⟩
  rw [components_eq_singleton (hnames.single name hname), walk_objectOf hnames.nodup hmem]
  rfl

/-- A path below a field. -/
theorem RuntimeValue.TypedAt.below {entries : List (String × RuntimeValue)} {name rest path : String}
    {v : RuntimeValue} {ty : StaticValueType} {omitted : Prop}
    (h : v.TypedAt path (components rest) ty omitted)
    (hnames : FieldNames (entries.map Prod.fst)) (hmem : (name, v) ∈ entries) :
    (objectOf entries).TypedAt path (components (name ++ "." ++ rest)) ty omitted := by
  obtain ⟨w, hwalk, hty⟩ := h
  have hname : name ∈ entries.map Prod.fst := List.mem_map.2 ⟨_, hmem, rfl⟩
  refine ⟨w, ?_, hty⟩
  rw [components_dot, components_eq_singleton (hnames.single name hname), List.singleton_append,
    walk_objectOf hnames.nodup hmem, hwalk]

/-- The entry at a place is the field. -/
theorem HasField.entry {entries : List (String × RuntimeValue)} {name : String} {v : RuntimeValue}
    {t ty : StaticValueType} {omitted : Prop} (i : ℕ) (hi : entries[i]? = some (name, v))
    (hty : some t = some ty) (hadmits : t.Admits v) : HasField entries name ty omitted :=
  ⟨v, List.mem_of_getElem? hi, Or.inl (Option.some.inj hty ▸ hadmits)⟩

/-- The same for a field that is null when it was omitted. -/
theorem HasField.optional {entries : List (String × RuntimeValue)} {name : String} {α : Type}
    {value : Option α} {f : α → RuntimeValue} {t ty : StaticValueType} {omitted : Prop} (i : ℕ)
    (hi : entries[i]? = some (name, orNull value f)) (hty : some t = some ty)
    (hadmits : ∀ a, t.Admits (f a)) (homitted : value = none → omitted) :
    HasField entries name ty omitted := by
  refine ⟨orNull value f, List.mem_of_getElem? hi, ?_⟩
  obtain rfl := Option.some.inj hty
  cases value with
  | none => exact Or.inr ⟨rfl, homitted rfl⟩
  | some a => exact Or.inl (hadmits a)

/-! ## The fields of each kind of result -/

theorem Checkpoint.hasField (c : Checkpoint) (chain : String) {tail : String}
    {ty : StaticValueType} (htail : tail ≠ "") (h : checkpointFieldType tail = some ty) :
    HasField (c.fields chain) tail ty ((StepAnswer.checkpoint c).omits tail) := by
  unfold checkpointFieldType at h
  split at h
  · exact absurd rfl htail
  · exact .entry 0 rfl h trivial
  · exact .entry 1 rfl h trivial
  · exact .entry 3 rfl h trivial
  · exact .optional 2 rfl h (fun _ => trivial) id
  · cases h

theorem Checkpoint.fieldNames (c : Checkpoint) (chain : String) :
    FieldNames ((c.fields chain).map Prod.fst) :=
  show FieldNames ["chain", "block_number", "block_hash", "captured_at"] by decide

theorem ConfirmedReceipt.hasField (r : ConfirmedReceipt) (chain : String) {tail : String}
    {ty : StaticValueType} (htail : tail ≠ "") (h : receiptFieldType tail = some ty) :
    HasField (r.runtimeFields chain) tail ty
      (tail = "transaction_index" ∧ r.transactionIndex = none) := by
  unfold receiptFieldType at h
  split at h
  · exact absurd rfl htail
  · exact .entry 0 rfl h trivial
  · exact .entry 1 rfl h trivial
  · exact .entry 2 rfl h trivial
  · exact .entry 3 rfl h trivial
  · exact .entry 4 rfl h trivial
  · exact .optional 5 rfl h (fun _ => trivial) fun hnone => ⟨rfl, hnone⟩
  · exact .entry 8 rfl h trivial
  · exact .entry 7 rfl h trivial
  · exact .entry 9 rfl h trivial
  · exact .entry 10 rfl h trivial
  · exact .entry 11 rfl h trivial
  · exact .entry 12 rfl h trivial
  · exact .entry 6 rfl h trivial
  · cases h

/-- The names of `runtime_fields`. -/
def receiptNames : List String :=
  ["chain", "transaction_hash", "tx_hash", "block_hash", "block_number", "transaction_index", "status",
    "gas_used", "block_timestamp_ms", "first_observed_at", "observed_at", "confirmed_at",
    "confirmation_depth"]

theorem ConfirmedReceipt.fieldNames (r : ConfirmedReceipt) (chain : String) :
    FieldNames ((r.runtimeFields chain).map Prod.fst) :=
  show FieldNames receiptNames by decide

/-- The fields of a submission and, if there is a receipt, those of the receipt. -/
theorem RpcSubmission.hasField (s : RpcSubmission) (chain template : String) (r : Option ConfirmedReceipt)
    {tail : String} {ty : StaticValueType} (htail : tail ≠ "")
    (hr : tail = "receipt" → r ≠ none) (h : submitFieldType tail = some ty) :
    HasField (s.fields chain template r) tail ty False ∨
      ∃ field, tail = "receipt" ++ "." ++ field ∧ field ≠ "" ∧ receiptFieldType field = some ty := by
  unfold submitFieldType at h
  split at h
  · exact absurd rfl htail
  · exact Or.inl (.optional 7 rfl h (fun _ => trivial) fun hnone => hr rfl hnone)
  · exact Or.inl (.entry 0 rfl h trivial)
  · exact Or.inl (.entry 1 rfl h trivial)
  · exact Or.inl (.entry 2 rfl h trivial)
  · exact Or.inr ⟨"chain", rfl, by decide, h⟩
  · exact Or.inl (.entry 3 rfl h trivial)
  · exact Or.inl (.entry 4 rfl h trivial)
  · exact Or.inr ⟨"transaction_hash", rfl, by decide, h⟩
  · exact Or.inr ⟨"tx_hash", rfl, by decide, h⟩
  · exact Or.inr ⟨"block_hash", rfl, by decide, h⟩
  · exact Or.inl (.entry 5 rfl h trivial)
  · exact Or.inl (.entry 6 rfl h trivial)
  · exact Or.inr ⟨"block_number", rfl, by decide, h⟩
  · exact Or.inr ⟨"transaction_index", rfl, by decide, h⟩
  · exact Or.inr ⟨"block_timestamp_ms", rfl, by decide, h⟩
  · exact Or.inr ⟨"gas_used", rfl, by decide, h⟩
  · exact Or.inr ⟨"first_observed_at", rfl, by decide, h⟩
  · exact Or.inr ⟨"observed_at", rfl, by decide, h⟩
  · exact Or.inr ⟨"confirmed_at", rfl, by decide, h⟩
  · exact Or.inr ⟨"confirmation_depth", rfl, by decide, h⟩
  · exact Or.inr ⟨"status", rfl, by decide, h⟩
  · cases h

theorem RpcSubmission.fieldNames (s : RpcSubmission) (chain template : String)
    (r : Option ConfirmedReceipt) : FieldNames ((s.fields chain template r).map Prod.fst) :=
  show FieldNames ["chain", "template", "id", "sender", "tx_hash", "submitted_at",
    "acceptance_latency", "receipt"] by decide

/-- The fields of a log whose identity is known. -/
theorem ObservedLog.hasField (o : ObservedLog) (chain : String) {tail : String}
    {ty : StaticValueType} (htail : tail ≠ "") (htx : o.log.transactionHash.isSome)
    (hblock : o.log.blockHash.isSome) (hnumber : o.log.blockNumber.isSome)
    (h : logFieldType false tail = some ty) :
    HasField (o.fields chain) tail ty ((StepAnswer.log o).omits tail) := by
  have hsome : ∀ {α : Type} {value : Option α} {p : Prop}, value.isSome → value = none → p := by
    rintro α _ p hvalue rfl
    cases hvalue
  unfold logFieldType at h
  split at h
  · exact absurd rfl htail
  · exact .entry 0 rfl h trivial
  · exact .optional 3 rfl h (fun _ => trivial) (hsome htx)
  · exact .optional 4 rfl h (fun _ => trivial) (hsome htx)
  · exact .optional 5 rfl h (fun _ => trivial) (hsome hblock)
  · exact .optional 6 rfl h (fun _ => trivial) (hsome hnumber)
  · exact .optional 7 rfl h (fun _ => trivial) id
  · exact .entry 12 rfl h trivial
  · exact .entry 13 rfl h trivial
  · exact .entry 14 rfl h trivial
  · exact .entry 15 rfl h trivial
  · exact .entry 16 rfl h trivial
  · cases h
  · cases h
  · cases h
  · exact .entry 11 rfl h trivial
  · exact .entry 9 rfl h trivial
  · exact .entry 10 rfl h trivial
  · exact .entry 1 rfl h trivial
  · exact .entry 2 rfl h trivial
  · exact .optional 8 rfl h (fun _ => trivial) id
  · cases h

theorem ObservedLog.fieldNames (o : ObservedLog) (chain : String) :
    FieldNames ((o.fields chain).map Prod.fst) :=
  show FieldNames ["chain", "address", "contract_address", "transaction_hash", "tx_hash",
    "block_hash", "block_number", "transaction_index", "log_index", "event", "event_name", "args",
    "block_timestamp_ms", "first_observed_at", "observed_at", "confirmed_at",
    "confirmation_depth"] by decide

/-- A group of events has the fields of a receipt, and the events. -/
theorem logFieldType_grouped {tail : String} {ty : StaticValueType}
    (h : logFieldType true tail = some ty) :
    tail = "events" ∧ ty = .object ∨ receiptFieldType tail = some ty := by
  unfold logFieldType at h
  split at h
  all_goals first
    | exact Or.inr h
    | exact Or.inl ⟨rfl, (Option.some.inj h).symm⟩
    | cases h

theorem events_fieldNames (r : ConfirmedReceipt) (chain : String) (v : RuntimeValue) :
    FieldNames ((r.runtimeFields chain ++ [("events", v)]).map Prod.fst) :=
  show FieldNames (receiptNames ++ ["events"]) by decide

theorem groupedFieldNames (log : EventLog) : FieldNames (log.groupedFields.map Prod.fst) :=
  show FieldNames ["address", "contract_address", "log_index", "event", "event_name", "args"] by
    decide

/-! ## Saved results -/

/-- What follows `events.` in a path that names an event of the group or one of its fields. -/
def WaitLogStep.NamesEvent (wait : WaitLogStep) (rest : String) : Prop :=
  ∃ id ∈ wait.events.map Prod.fst, rest = id ∨
    ∃ field ∈ ["address", "contract_address", "log_index", "event", "event_name", "args"],
      rest = id ++ "." ++ field

/-- The paths whose shape depends on what a chain or an adapter returns: the outputs of `invoke`, the
    decoded arguments of events, and what is below the events of a group without being declared. -/
def StepDef.DynamicBelow (step : StepDef) (tail : String) : Prop :=
  match step.action with
  | .invoke _ => True
  | .waitLog wait =>
    if wait.events = [] then startsWith tail "args." = true
    else ∃ rest, tail = "events." ++ rest ∧ ¬ wait.NamesEvent rest
  | _ => False

/-- The result itself has its static type. -/
theorem StepAnswer.admits_root {step : StepDef} {answer : StepAnswer} (hprod : step.Produces answer)
    (chain : String) {ty : StaticValueType} (h : savedFieldType step.savedKind "" = some ty) :
    ty.Admits (answer.value chain) := by
  have hobject : ∃ entries, answer.value chain = .object entries := by
    cases answer <;> exact ⟨_, rfl⟩
  obtain ⟨entries, hentries⟩ := hobject
  have hty : ty = .object := by
    unfold StepDef.savedKind at h
    cases haction : step.action <;> simp only [haction, savedFieldType] at h
    case invoke => cases h
    all_goals exact (Option.some.inj h).symm
  rw [hty, hentries]
  trivial

/-- Every field with a static type is there and has that type. -/
theorem StepAnswer.typedAt {step : StepDef} {answer : StepAnswer} (hprod : step.Produces answer)
    (chain path : String) {tail : String} {ty : StaticValueType} (htail : tail ≠ "")
    (hawait : ¬ (step.savedKind = .submit false ∧
      (tail = "receipt" ∨ startsWith tail "receipt." = true)))
    (h : savedFieldType step.savedKind tail = some ty) :
    (answer.value chain).TypedAt path (components tail) ty (answer.omits tail) := by
  unfold StepDef.savedKind at h hawait
  unfold StepDef.Produces at hprod
  split at hprod
  · rename_i haction
    rw [haction] at h
    exact (Checkpoint.hasField _ chain htail h).typedAt (Checkpoint.fieldNames _ chain) path
  · rename_i haction
    rw [haction] at h
    cases h
  · rename_i submit template s r haction
    rw [haction] at h hawait
    have hr : tail = "receipt" ∨ startsWith tail "receipt." = true → r ≠ none := by
      rintro htail rfl
      refine hawait ⟨?_, htail⟩
      have hnot : submit.awaitMode ≠ some .receipt := fun hsome => by simp [hsome] at hprod
      simp [hnot]
    rcases s.hasField chain template r htail (fun hreceipt => hr (Or.inl hreceipt)) h with
      hfield | ⟨field, rfl, hne, hfield⟩
    · obtain ⟨v, hmem, hadmits | ⟨-, himpossible⟩⟩ := hfield
      · exact HasField.typedAt ⟨v, hmem, Or.inl hadmits⟩ (s.fieldNames chain template r) path
      · exact himpossible.elim
    · -- the receipt is there, and has the field
      have hstarts : startsWith ("receipt" ++ "." ++ field) "receipt." = true :=
        startsWith_iff.2 ⟨field, rfl⟩
      obtain ⟨r, rfl⟩ := Option.ne_none_iff_exists'.1 (hr (Or.inr hstarts))
      have hreceipt := (r.hasField chain hne hfield).typedAt (r.fieldNames chain) path
      obtain ⟨v, hwalk, hty⟩ := hreceipt.below (s.fieldNames chain template (some r))
        (List.mem_of_getElem? (i := 7) rfl)
      refine ⟨v, hwalk, hty.imp_right (And.imp_right ?_)⟩
      rintro ⟨rfl, hnone⟩
      exact hnone
  · rename_i haction
    rw [haction] at h
    obtain ⟨v, hmem, hty⟩ := ConfirmedReceipt.hasField _ chain htail h
    refine HasField.typedAt ⟨v, hmem, hty.imp_right (And.imp_right ?_)⟩
      (ConfirmedReceipt.fieldNames _ chain) path
    rintro ⟨rfl, hnone⟩
    exact hnone
  · rename_i wait o haction
    obtain ⟨hevents, htx, hblock, hnumber⟩ := hprod
    rw [haction] at h
    simp only [hevents, savedFieldType] at h
    exact (o.hasField chain htail htx hblock hnumber h).typedAt (o.fieldNames chain) path
  · rename_i wait r logs haction
    obtain ⟨hevents, -⟩ := hprod
    rw [haction] at h
    simp only [hevents, savedFieldType, ne_eq, not_false_eq_true, decide_true] at h
    rcases logFieldType_grouped h with ⟨rfl, rfl⟩ | hfield
    · refine HasField.typedAt ⟨_, List.mem_append_right _ (List.mem_singleton_self _), Or.inl ?_⟩
        (events_fieldNames r chain _) path
      trivial
    · obtain ⟨v, hmem, hty⟩ := r.hasField chain htail hfield
      refine HasField.typedAt ⟨v, List.mem_append_left _ hmem, hty.imp_right (And.imp_right ?_)⟩
        (events_fieldNames r chain _) path
      rintro ⟨rfl, hnone⟩
      exact hnone
  · exact hprod.elim

/-- A declared event and its fields are there. -/
theorem events_resolve (r : ConfirmedReceipt) (logs : List (String × EventLog))
    {wait : WaitLogStep} (hids : logs.map Prod.fst = wait.events.map Prod.fst)
    (hsingle : ∀ id ∈ wait.events.map Prod.fst, '.' ∉ id.toList) (chain path : String)
    {rest : String} (hrest : wait.NamesEvent rest) :
    ∃ v, ((StepAnswer.events r logs).value chain).walk path (components ("events." ++ rest)) =
      .ok v := by
  obtain ⟨id, hid, hrest⟩ := hrest
  have hid' := hsingle id hid
  -- an ID may be listed twice; the last one counts
  obtain ⟨log, hlog⟩ : ∃ log : EventLog, OrdMap.get? id (OrdMap.ofList
      (logs.map fun e => (e.1, objectOf e.2.groupedFields))) = some (objectOf log.groupedFields) := by
    rw [← hids] at hid
    have hin : id ∈ (logs.map fun e => (e.1, objectOf e.2.groupedFields)).reverse.map Prod.fst := by
      simpa using hid
    obtain ⟨v, hv⟩ : ∃ v, OrdMap.get? id
        (logs.map fun e => (e.1, objectOf e.2.groupedFields)).reverse = some v :=
      Option.ne_none_iff_exists'.1 fun hnone => OrdMap.notMem_of_get? hnone hin
    obtain ⟨e, -, he⟩ := List.mem_map.1 (List.mem_reverse.1 (OrdMap.mem_of_get? hv))
    refine ⟨e.2, ?_⟩
    rw [OrdMap.ofList, OrdMap.get?_foldl_set, hv, ← (Prod.mk.inj he).2]
    rfl
  have hroot : ∀ parts, ((StepAnswer.events r logs).value chain).walk path ("events" :: id :: parts) =
      (objectOf log.groupedFields).walk path parts := by
    intro parts
    show (objectOf _).walk path _ = _
    rw [walk_objectOf (events_fieldNames r chain _).nodup
      (List.mem_append_right _ (List.mem_singleton_self _)), objectOf_eq, RuntimeValue.walk, hlog]
  have hevents : components ("events." ++ rest) = "events" :: components rest :=
    components_dot "events" rest
  rw [hevents]
  rcases hrest with rfl | ⟨field, hfield, rfl⟩
  · rw [components_eq_singleton hid']
    exact ⟨_, hroot []⟩
  · rw [components_dot, components_eq_singleton hid', List.singleton_append, hroot]
    have hmem : field ∈ log.groupedFields.map Prod.fst := hfield
    obtain ⟨⟨_, v⟩, hv, rfl⟩ := List.mem_map.1 hmem
    refine ⟨v, ?_⟩
    rw [components_eq_singleton ((groupedFieldNames log).single _ hmem),
      walk_objectOf (groupedFieldNames log).nodup hv]
    rfl

/-- Every path below a result that the validator accepts resolves, unless its shape is dynamic. -/
theorem StepAnswer.resolves {step : StepDef} {answer : StepAnswer} (hprod : step.Produces answer)
    (hsingle : ∀ wait, step.action = .waitLog wait →
      ∀ id ∈ wait.events.map Prod.fst, '.' ∉ id.toList)
    (chain path : String) {root tail : String} (htail : tail ≠ "")
    (hvalid : validateSavedPath root step.savedKind (some tail) = .ok ())
    (hstatic : ¬ step.DynamicBelow tail) :
    ∃ v, (answer.value chain).walk path (components tail) = .ok v ∧
      ∀ ty, savedFieldType step.savedKind tail = some ty →
        ty.Admits v ∨ v = .null ∧ answer.omits tail := by
  obtain ⟨⟨⟩, hawait, hfield⟩ := bind_eq_ok.1 hvalid
  rw [bailIf_eq_ok] at hawait hfield
  cases hty : savedFieldType step.savedKind tail with
  | some ty =>
      obtain ⟨v, hwalk, hadmits⟩ := StepAnswer.typedAt hprod chain path htail hawait hty
      refine ⟨v, hwalk, fun ty' hty' => ?_⟩
      obtain rfl := Option.some.inj hty'
      exact hadmits
  | none =>
      suffices ∃ v, (answer.value chain).walk path (components tail) = .ok v from
        this.imp fun v hv => ⟨hv, fun _ hty' => by cases hty'⟩
      have hdynamic : step.savedKind.isDynamic tail = true := by
        by_contra hnot
        exact hfield ⟨by simpa using hnot, hty⟩
      unfold StepDef.savedKind at hdynamic
      unfold StepDef.DynamicBelow at hstatic
      cases haction : step.action with
      | waitLog wait =>
          simp only [haction] at hdynamic hstatic
          by_cases hevents : wait.events = []
          · simp only [hevents, if_true] at hstatic hdynamic
            exact absurd hdynamic hstatic
          · simp only [hevents, if_false, ne_eq, not_false_eq_true, decide_true] at hstatic hdynamic
            obtain ⟨rest, rfl⟩ := startsWith_iff.1 hdynamic
            have hnames : wait.NamesEvent rest := by
              by_contra hnot
              exact hstatic ⟨rest, rfl, hnot⟩
            unfold StepDef.Produces at hprod
            cases answer with
            | events r logs =>
                simp only [haction] at hprod
                exact events_resolve r logs hprod.2 (hsingle wait haction) chain path hnames
            | log o =>
                simp only [haction] at hprod
                exact absurd hprod.1 hevents
            | _ => simp only [haction] at hprod
      | invoke invoke =>
          simp only [haction, not_true_eq_false] at hstatic
      | _ => simp only [haction, SavedKind.isDynamic, Bool.false_eq_true] at hdynamic

/-! ## Bindings -/

theorem accountFieldNames (pool : String) (index : ℕ) (address : Address) :
    FieldNames ((accountFields pool index address).map Prod.fst) :=
  show FieldNames ["pool", "index", "address", "ref"] by decide

/-- A reference to an account, as the value of a binding has it. -/
theorem accountRef_eq (pool : String) (index : ℕ) :
    objectOf [("pool", .string pool), ("select", objectOf [("index", .uint index)])] =
      .object [("pool", .string pool), ("select", .object [("index", .uint index)])] := by
  have hlt : "pool" < "select" := by decide
  have hset (v : RuntimeValue) : OrdMap.set "select" v (OrdMap.set "pool" (.string pool) []) =
      [("pool", .string pool), ("select", v)] := by
    rw [OrdMap.set, OrdMap.set_of_gt hlt]
    rfl
  simp only [objectOf, List.foldl_cons, List.foldl_nil, hset]
  rfl

/-- The fields of the reference. -/
def accountRefFields (pool : String) (index : ℕ) : List (String × RuntimeValue) :=
  [("pool", .string pool), ("select", objectOf [("index", .uint index)])]

theorem accountRefFieldNames (pool : String) (index : ℕ) :
    FieldNames ((accountRefFields pool index).map Prod.fst) :=
  show FieldNames ["pool", "select"] by decide

theorem accountRef_mem (pool : String) (index : ℕ) (address : Address) :
    ("ref", objectOf (accountRefFields pool index)) ∈ accountFields pool index address :=
  List.mem_of_getElem? (i := 3) rfl

/-- Every path below an account binding that the validator accepts resolves, with its type. -/
theorem account_resolves (pool : String) (index : ℕ) (address : Address) (path : String)
    {root tail : String} (hvalid : validateAccountPath root (some tail) = .ok ()) :
    ∃ v, (accountBindingValue pool index address).walk path (components tail) = .ok v ∧
      ∀ ty, accountFieldType tail = some ty → ty.Admits v := by
  have htyped : ∃ ty, accountFieldType tail = some ty ∧
      (accountBindingValue pool index address).TypedAt path (components tail) ty False := by
    have hnames := accountFieldNames pool index address
    have href := accountRefFieldNames pool index
    have hmem := accountRef_mem pool index address
    rw [validateAccountPath, bailIf_eq_ok, not_not] at hvalid
    simp only [List.mem_cons, List.not_mem_nil, or_false] at hvalid
    rcases hvalid with rfl | rfl | rfl | rfl | rfl | rfl | rfl
    · have hfield : HasField (accountFields pool index address) "pool" .string False :=
        .entry 0 rfl rfl trivial
      exact ⟨.string, rfl, hfield.typedAt hnames path⟩
    · have hfield : HasField (accountFields pool index address) "index" .uint False :=
        .entry 1 rfl rfl trivial
      exact ⟨.uint, rfl, hfield.typedAt hnames path⟩
    · have hfield : HasField (accountFields pool index address) "address" .address False :=
        .entry 2 rfl rfl trivial
      exact ⟨.address, rfl, hfield.typedAt hnames path⟩
    · have hfield : HasField (accountFields pool index address) "ref" .accountRef False := by
        refine ⟨_, List.mem_of_getElem? (i := 3) rfl, Or.inl ?_⟩
        rw [accountRef_eq]
        trivial
      exact ⟨.accountRef, rfl, hfield.typedAt hnames path⟩
    · have hfield : HasField (accountRefFields pool index) "pool" .string False :=
        .entry 0 rfl rfl trivial
      exact ⟨.string, rfl, (hfield.typedAt href path).below hnames hmem⟩
    · have hfield : HasField (accountRefFields pool index) "select" .object False :=
        .entry 1 rfl rfl trivial
      exact ⟨.object, rfl, (hfield.typedAt href path).below hnames hmem⟩
    · have hfield : HasField [("index", .uint index)] "index" .uint False := .entry 0 rfl rfl trivial
      have hselect : ("select", objectOf [("index", .uint index)]) ∈ accountRefFields pool index :=
        List.mem_of_getElem? (i := 1) rfl
      have hindex : FieldNames ["index"] := by decide
      exact ⟨.uint, rfl, ((hfield.typedAt hindex path).below href hselect).below hnames hmem⟩
  obtain ⟨ty, hty, v, hwalk, hadmits | ⟨-, himpossible⟩⟩ := htyped
  · refine ⟨v, hwalk, fun ty' hty' => ?_⟩
    obtain rfl := Option.some.inj (hty.symm.trans hty')
    exact hadmits
  · exact himpossible.elim

end TxGen
