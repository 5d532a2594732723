import TxGen.CallReplay.Responses

set_option autoImplicit false

/-! # Classifying a response

What a JSON object says by its `result` and `error` members, against what the scanner makes of it. The
scanner reads a key by dropping the backslashes in it, so it agrees with a JSON parser exactly if that
finds the members that decoding the keys finds. -/

namespace TxGen.CallReplay

open JsonText (Element Entry ObjectText)
open ResponseScanner (resultAfter errorAfter)

/-- The key of the member decodes to the name. -/
def Decodes (name : String) (entry : Entry) : Prop :=
  JsonText.decoded entry.key = name.toList.map Char.toNat

/-- The scanner reads the name as the key of the member. -/
def Reads (name : String) (entry : Entry) : Prop := scannedKey entry = bytesOf name

instance (name : String) : DecidablePred (Decodes name) := fun _ => inferInstanceAs (Decidable (_ = _))

instance (name : String) : DecidablePred (Reads name) := fun _ => inferInstanceAs (Decidable (_ = _))

/-- The text of the value of the last member that is meant -/
def lastValue (p : Entry → Prop) [DecidablePred p] (entries : List Entry) : Option (List UInt8) :=
  (entries.filter fun entry => decide (p entry)).getLast?.map fun entry => entry.value.text

section

variable {K : Type} (keccak256 : List UInt8 → K) (parseRpcError : List UInt8 → Option RpcError)

/-- The outcome is what the decoded keys of the members say: an error if there is an `error`, else the
    last `result`, and a failure if there is neither. -/
structure Classified (entries : List Entry) (outcome : Except Report (ResponseSummary K)) : Prop where
  error : (∃ summary, outcome = .ok summary ∧ summary.kind = .rpcError) ↔
    ∃ entry ∈ entries, Decodes "error" entry
  result : (∀ entry ∈ entries, ¬ Decodes "error" entry) → ∀ text,
    lastValue (Decodes "result") entries = some text →
      outcome = .ok ⟨.ok, keccak256 text, text.length⟩
  neither : (∀ entry ∈ entries, ¬ Decodes "error" entry) →
    lastValue (Decodes "result") entries = none → ∃ report, outcome = .error report

/-- Dropping the backslashes in the keys finds an `error` if decoding them does, and else the same
    last `result`. -/
structure ReadAlike (entries : List Entry) : Prop where
  error : (∃ entry ∈ entries, Reads "error" entry) ↔ ∃ entry ∈ entries, Decodes "error" entry
  result : (∀ entry ∈ entries, ¬ Decodes "error" entry) →
    lastValue (Reads "result") entries = lastValue (Decodes "result") entries

/-! ## What the scanner finds -/

theorem foldl_last {α β : Type} (p : α → Prop) [DecidablePred p] (f : α → β) (l : List α)
    (first : Option β) :
    l.foldl (fun found a => if p a then some (f a) else found) first
      = ((l.filter fun a => decide (p a)).getLast?.map f).or first := by
  induction l generalizing first with
  | nil => rfl
  | cons a l ih =>
      rw [List.foldl_cons, ih]
      by_cases ha : p a
      · rw [if_pos ha, List.filter_cons_of_pos (by simpa using ha), List.getLast?_cons]
        cases (l.filter fun a => decide (p a)).getLast? <;> rfl
      · rw [if_neg ha, List.filter_cons_of_neg (by simpa using ha)]

theorem classify_eq_result (key : List UInt8) :
    Member.classify key false = .result ↔ key = bytesOf "result" := by
  unfold Member.classify
  by_cases hresult : key = bytesOf "result"
  · simp [hresult]
  · by_cases herror : key = bytesOf "error" <;> simp [hresult, herror]

theorem classify_eq_error (key : List UInt8) :
    Member.classify key false = .error ↔ key = bytesOf "error" := by
  unfold Member.classify
  by_cases hresult : key = bytesOf "result"
  · subst hresult
    simp
    decide
  · simp [hresult]

theorem foldl_resultAfter (entries : List Entry) :
    entries.foldl (fun result entry => resultAfter entry result) none
      = (lastValue (Reads "result") entries).map fun text => ⟨text, text.length⟩ := by
  have hstep : (fun (result : Option Digested) (entry : Entry) => resultAfter entry result)
      = fun result entry => if Reads "result" entry then
          some ⟨entry.value.text, entry.value.text.length⟩ else result := by
    funext result entry
    exact if_congr (classify_eq_result _) rfl rfl
  rw [hstep, foldl_last, Option.or_none, lastValue, Option.map_map]
  rfl

theorem foldl_errorAfter (entries : List Entry) :
    entries.foldl (fun error entry => errorAfter entry error) none
      = (lastValue (Reads "error") entries).map fun text => text.take maxErrorCapture := by
  have hstep : (fun (error : Option (List UInt8)) (entry : Entry) => errorAfter entry error)
      = fun error entry => if Reads "error" entry then
          some (entry.value.text.take maxErrorCapture) else error := by
    funext error entry
    exact if_congr (classify_eq_error _) rfl rfl
  rw [hstep, foldl_last, Option.or_none, lastValue, Option.map_map]
  rfl

/-- The response is classified by the keys as the scanner reads them. -/
theorem digestResponse_object (object : ObjectText) :
    digestResponse keccak256 parseRpcError [object.text]
      = match lastValue (Reads "error") object.entries with
        | some text => .ok (digestRpcError keccak256 parseRpcError (text.take maxErrorCapture))
        | none =>
          match lastValue (Reads "result") object.entries with
          | some text => .ok ⟨.ok, keccak256 text, text.length⟩
          | none => bail "response carried neither a result nor an error" := by
  obtain ⟨s, hrun, hfinished, hresult, herror⟩ := ResponseScanner.object_scanned object
  rw [foldl_resultAfter] at hresult
  rw [foldl_errorAfter] at herror
  have hscan : [object.text].foldlM ResponseScanner.feed {} = .ok s := by
    rw [foldlM_feed, List.flatten_singleton]
    exact hrun
  rw [digestResponse, hscan]
  simp only [bind, Except.bind, ResponseScanner.finish, hfinished, ne_eq, not_true_eq_false,
    if_false, herror, hresult]
  cases lastValue (Reads "error") object.entries with
  | some text => rfl
  | none => cases lastValue (Reads "result") object.entries <;> rfl

theorem lastValue_eq_none {p : Entry → Prop} [DecidablePred p] {entries : List Entry} :
    lastValue p entries = none ↔ ∀ entry ∈ entries, ¬ p entry := by
  simp [lastValue]

theorem exists_of_lastValue {p : Entry → Prop} [DecidablePred p] {entries : List Entry}
    {text : List UInt8} (h : lastValue p entries = some text) :
    ∃ entry ∈ entries, p entry ∧ entry.value.text = text := by
  obtain ⟨entry, hlast, rfl⟩ := Option.map_eq_some_iff.1 h
  obtain ⟨hmem, hp⟩ := List.mem_filter.1 (List.mem_of_getLast? hlast)
  exact ⟨entry, hmem, by simpa using hp, rfl⟩

/-- Whether the scanner finds an error -/
theorem rpcError_iff (object : ObjectText) :
    (∃ summary, digestResponse keccak256 parseRpcError [object.text] = .ok summary ∧
        summary.kind = .rpcError) ↔ ∃ entry ∈ object.entries, Reads "error" entry := by
  rw [digestResponse_object]
  cases herror : lastValue (Reads "error") object.entries with
  | some text =>
      obtain ⟨entry, hmem, hreads, -⟩ := exists_of_lastValue herror
      constructor
      · intro _
        exact ⟨entry, hmem, hreads⟩
      · intro _
        exact ⟨_, rfl, rfl⟩
  | none =>
      have hnone := lastValue_eq_none.1 herror
      constructor
      · rintro ⟨summary, hsummary, hkind⟩
        cases hresult : lastValue (Reads "result") object.entries with
        | none => simp [hresult, bail] at hsummary
        | some text =>
            simp only [hresult, Except.ok.injEq] at hsummary
            subst hsummary
            cases hkind
      · rintro ⟨entry, hmem, hreads⟩
        exact absurd hreads (hnone entry hmem)

/-- The scanner classifies a response as its decoded keys say exactly if dropping the backslashes reads
    the keys alike. The values of the response have no colliding digests. -/
theorem classified_iff (object : ObjectText)
    (hcollision : ∀ entry ∈ object.entries, ∀ entry' ∈ object.entries,
      keccak256 entry.value.text = keccak256 entry'.value.text →
        entry.value.text = entry'.value.text) :
    Classified keccak256 object.entries (digestResponse keccak256 parseRpcError [object.text]) ↔
      ReadAlike object.entries := by
  have herror := rpcError_iff keccak256 parseRpcError object
  constructor
  · intro h
    have halike := herror.symm.trans h.error
    refine ⟨halike, fun hno => ?_⟩
    -- without an error the outcome shows the last result
    have hnone : lastValue (Reads "error") object.entries = none := by
      refine lastValue_eq_none.2 fun entry hmem hreads => ?_
      obtain ⟨entry', hmem', hdecodes⟩ := halike.1 ⟨entry, hmem, hreads⟩
      exact hno entry' hmem' hdecodes
    have houtcome := digestResponse_object keccak256 parseRpcError object
    simp only [hnone] at houtcome
    cases hdecoded : lastValue (Decodes "result") object.entries with
    | none =>
        obtain ⟨report, hreport⟩ := h.neither hno hdecoded
        rw [houtcome] at hreport
        cases hread : lastValue (Reads "result") object.entries with
        | none => rfl
        | some text => simp [hread] at hreport
    | some text =>
        have hok := h.result hno text hdecoded
        rw [houtcome] at hok
        cases hread : lastValue (Reads "result") object.entries with
        | none => simp [hread, bail] at hok
        | some text' =>
            simp only [hread, Except.ok.injEq, ResponseSummary.mk.injEq, true_and] at hok
            obtain ⟨entry, hmem, -, rfl⟩ := exists_of_lastValue hdecoded
            obtain ⟨entry', hmem', -, rfl⟩ := exists_of_lastValue hread
            rw [hcollision entry' hmem' entry hmem hok.1]
  · intro h
    have hno : (∀ entry ∈ object.entries, ¬ Decodes "error" entry) →
        lastValue (Reads "error") object.entries = none := by
      intro hno
      refine lastValue_eq_none.2 fun entry hmem hreads => ?_
      obtain ⟨entry', hmem', hdecodes⟩ := h.error.1 ⟨entry, hmem, hreads⟩
      exact hno entry' hmem' hdecodes
    refine ⟨herror.trans h.error, fun hnoError text htext => ?_, fun hnoError hnone => ?_⟩
    · rw [digestResponse_object, hno hnoError]
      simp only [h.result hnoError, htext]
    · refine ⟨["response carried neither a result nor an error"], ?_⟩
      rw [digestResponse_object, hno hnoError]
      simp only [h.result hnoError, hnone]
      rfl

end

/-! ## Plain keys -/

/-- An element that keeps its meaning without the backslash -/
def IsSimple : Element → Prop
  | .plain _ _ => True
  | .escape e => e = .quote ∨ e = .backslash ∨ e = .slash
  | .unicode _ _ _ _ => False

theorem simple_element {element : Element} (h : IsSimple element) :
    (∃ n, n < 128 ∧ unescaped element = [UInt8.ofNat n] ∧ element.units = [n]) ∨
      ∃ b bs n ns, unescaped element = b :: bs ∧ element.units = n :: ns ∧ 128 ≤ b.toNat ∧ 128 ≤ n := by
  cases element with
  | unicode a b c d => exact h.elim
  | escape e =>
      left
      rcases h with rfl | rfl | rfl
      · exact ⟨0x22, by decide, rfl, rfl⟩
      · exact ⟨0x5c, by decide, rfl, rfl⟩
      · exact ⟨0x2f, by decide, rfl, rfl⟩
  | plain c hc =>
      by_cases hascii : c.toNat < 128
      · refine Or.inl ⟨c.toNat, hascii, JsonText.utf8_of_ascii hascii, ?_⟩
        simp only [Element.units, JsonText.utf16]
        rw [if_pos (by omega)]
      · right
        obtain ⟨b, bs, hbytes⟩ := List.exists_cons_of_ne_nil (String.utf8EncodeChar_ne_nil (c := c))
        have hb : b ∈ String.utf8EncodeChar c := by
          rw [hbytes]
          exact List.mem_cons_self
        have hhigh : 128 ≤ b.toNat := by
          rcases JsonText.toNat_utf8 hb with ⟨hlow, -⟩ | ⟨-, hhigh⟩
          · exact absurd hlow hascii
          · exact hhigh
        simp only [Element.units, JsonText.utf16]
        split
        · exact ⟨b, bs, c.toNat, [], hbytes, rfl, hhigh, by omega⟩
        · exact ⟨b, bs, _, _, hbytes, rfl, hhigh, by omega⟩

/-- Dropping the backslashes of simple elements decodes them. -/
theorem unescaped_eq_iff {elements : List Element} (h : ∀ element ∈ elements, IsSimple element)
    {name : List ℕ} (hname : ∀ n ∈ name, n < 128) :
    elements.flatMap unescaped = name.map UInt8.ofNat ↔ JsonText.decoded elements = name := by
  induction elements generalizing name with
  | nil => cases name <;> simp [JsonText.decoded]
  | cons element elements ih =>
      have hrest := fun e he => h e (List.mem_cons_of_mem element he)
      have hdecoded : JsonText.decoded (element :: elements)
          = element.units ++ JsonText.decoded elements := rfl
      rw [List.flatMap_cons, hdecoded]
      cases name with
      | nil =>
          rcases simple_element (h element List.mem_cons_self) with
            ⟨n, -, hbytes, hunits⟩ | ⟨b, bs, n, ns, hbytes, hunits, -, -⟩ <;> simp [hbytes, hunits]
      | cons m name =>
          have hm := hname m List.mem_cons_self
          have hih := ih hrest fun n hn => hname n (List.mem_cons_of_mem m hn)
          rcases simple_element (h element List.mem_cons_self) with
            ⟨n, hn, hbytes, hunits⟩ | ⟨b, bs, n, ns, hbytes, hunits, hb, hn⟩
          · rw [hbytes, hunits, List.map_cons, List.singleton_append, List.singleton_append,
              List.cons.injEq, List.cons.injEq, hih]
            refine and_congr_left fun _ => ⟨fun heq => ?_, fun heq => by rw [heq]⟩
            have hnat := congrArg UInt8.toNat heq
            rw [UInt8.toNat_ofNat', UInt8.toNat_ofNat'] at hnat
            omega
          · rw [hbytes, hunits, List.map_cons, List.cons_append, List.cons_append, List.cons.injEq,
              List.cons.injEq]
            constructor
            · rintro ⟨rfl, -⟩
              rw [UInt8.toNat_ofNat'] at hb
              omega
            · rintro ⟨rfl, -⟩
              omega

/-- Keys without escapes of control characters and without `\u` are read alike. -/
theorem readAlike_of_simple {entries : List Entry}
    (h : ∀ entry ∈ entries, ∀ element ∈ entry.key, IsSimple element) : ReadAlike entries := by
  have hiff : ∀ entry ∈ entries, (Reads "error" entry ↔ Decodes "error" entry) ∧
      (Reads "result" entry ↔ Decodes "result" entry) := by
    intro entry hmem
    have hname : ∀ name : String, bytesOf name = (name.toList.map Char.toNat).map UInt8.ofNat := by
      intro name
      rw [bytesOf, List.map_map]
      rfl
    rw [Reads, Decodes, Reads, Decodes, scannedKey, hname, hname]
    exact ⟨unescaped_eq_iff (h entry hmem) (by decide), unescaped_eq_iff (h entry hmem) (by decide)⟩
  refine ⟨?_, fun _ => ?_⟩
  · constructor
    · rintro ⟨entry, hmem, hreads⟩
      exact ⟨entry, hmem, (hiff entry hmem).1.1 hreads⟩
    · rintro ⟨entry, hmem, hdecodes⟩
      exact ⟨entry, hmem, (hiff entry hmem).1.2 hdecodes⟩
  · unfold lastValue
    congr 2
    refine List.filter_congr fun entry hmem => ?_
    simp only [(hiff entry hmem).2]

namespace ResponseSample

/-- A string without escapes -/
def plain (text : String) : List Element :=
  text.toList.filterMap fun c => if h : JsonText.IsPlain c then some (.plain c h) else none

/-- `{"id":1,"result":"0x2a"}` -/
def answered : ObjectText where
  before := []
  blanks := []
  entries := [.mk [] (plain "id") [] [] (.number ⟨false, ⟨1, []⟩, by decide, none, none⟩) [],
    .mk [] (plain "result") [] [] (.string (plain "0x2a")) []]
  after := []

/-- `{"\u0065rror":"boom"}` -/
def escaped : ObjectText where
  before := []
  blanks := []
  entries := [.mk [] (.unicode ⟨0, false⟩ ⟨0, false⟩ ⟨6, false⟩ ⟨5, false⟩ :: plain "rror") [] []
    (.string (plain "boom")) []]
  after := []

theorem classified_iff_answered :
    (∀ entry ∈ answered.entries, ∀ entry' ∈ answered.entries,
        id entry.value.text = id entry'.value.text → entry.value.text = entry'.value.text) ∧
      (Classified id answered.entries (digestResponse id (fun _ => none) [answered.text]) ↔
        ReadAlike answered.entries) :=
  ⟨fun _ _ _ _ h => h, classified_iff id (fun _ => none) answered fun _ _ _ _ h => h⟩

/-- The error is not seen: its key is read as `u0065rror`. -/
theorem escaped_not_classified :
    ¬ Classified id escaped.entries (digestResponse id (fun _ => none) [escaped.text]) := by
  intro h
  have hdecodes : ∃ entry ∈ escaped.entries, Decodes "error" entry :=
    ⟨_, List.mem_singleton_self _, by decide⟩
  obtain ⟨summary, hsummary, -⟩ := h.error.2 hdecodes
  have hnone : ∀ name, name = "error" ∨ name = "result" →
      lastValue (Reads name) escaped.entries = none := by
    rintro name (rfl | rfl) <;> decide
  rw [digestResponse_object, hnone "error" (Or.inl rfl), hnone "result" (Or.inr rfl)] at hsummary
  cases hsummary

end ResponseSample

end TxGen.CallReplay
