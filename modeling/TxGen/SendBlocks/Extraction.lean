import TxGen.Lib.Rlp
import TxGen.SendBlocks.Model

set_option autoImplicit false

/-! # Transactions of an encoded block

The transactions are cut out of the block's RLP by hand, from the lengths in the item headers. Slices
are checked here as Rust checks them, so that a slice past the end is a `Fault` of its own beside the
errors that are returned. -/

namespace TxGen.SendBlocks

open Rlp (Codec)

inductive Fault
  | report (report : Report)
  /-- A slice past the end of its input -/
  | outOfBounds
  /-- The loop has made more turns than the input has bytes. -/
  | diverged

/-- `wrap_err` -/
def wrapFault {ε α : Type} (describe : ε → Report) (result : Except ε α) (message : String) :
    Except Fault α :=
  result.mapError fun e => .report (message :: describe e)

/-- `&buf[..n]` -/
def sliceTo (buf : List UInt8) (n : ℕ) : Except Fault (List UInt8) :=
  if n ≤ buf.length then .ok (buf.take n) else .error .outOfBounds

/-- `&buf[n..]` -/
def sliceFrom (buf : List UInt8) (n : ℕ) : Except Fault (List UInt8) :=
  if n ≤ buf.length then .ok (buf.drop n) else .error .outOfBounds

section

variable {ε : Type} (describe : ε → Report) (codec : Codec ε)

/-- The fields inside a block's outer RLP list. -/
def blockRlpFields (raw : List UInt8) : Except Fault (List UInt8) := do
  let (blockPayload, blockBuf) ← wrapFault describe (codec.decodeBytes raw true)
    "failed to decode outer block RLP list"
  if blockBuf ≠ [] then
    .error (.report ["block RLP has trailing bytes after outer list"])
  .ok blockPayload

def skipRlpItem (buf : List UInt8) : Except Fault (List UInt8) := do
  let (header, buf) ← wrapFault describe (codec.decode buf) "failed to decode RLP item header"
  sliceFrom buf header.payloadLength

/-- One item of the transaction list, and the list after it. -/
def nextEncodedTx (txsPayload : List UInt8) : Except Fault (List UInt8 × List UInt8) := do
  let itemStart := txsPayload
  let (header, txsPayload) ← wrapFault describe (codec.decode itemStart)
    "failed to decode transaction RLP item"
  let headerLen := itemStart.length - txsPayload.length
  -- legacy transactions are the RLP list itself, typed ones are wrapped in an RLP string
  let encoded ← (if header.list then sliceTo itemStart (headerLen + header.payloadLength)
    else sliceTo txsPayload header.payloadLength)
  let txsPayload ← sliceFrom txsPayload header.payloadLength
  .ok (encoded, txsPayload)

/-- `while !txs_payload.is_empty()` -/
def encodedTxs : ℕ → List UInt8 → Except Fault (List (List UInt8))
  | _, [] => .ok []
  | 0, _ => .error .diverged
  | fuel + 1, txsPayload => do
    let (encoded, txsPayload) ← nextEncodedTx describe codec txsPayload
    let rest ← encodedTxs fuel txsPayload
    .ok (encoded :: rest)

/-- The EIP-2718 encoded transactions of a block body, the fields after its header. -/
def extractEncodedTxsFromBody (body : List UInt8) : Except Fault (List (List UInt8)) := do
  let (txsPayload, _) ← wrapFault describe (codec.decodeBytes body true)
    "failed to decode transactions RLP list"
  encodedTxs describe codec txsPayload.length txsPayload

/-- The EIP-2718 encoded transactions of an RLP-encoded block. -/
def extractEncodedTxsFromBlockRlp (raw : List UInt8) : Except Fault (List (List UInt8)) := do
  let blockPayload ← blockRlpFields describe codec raw
  let blockPayload ← (skipRlpItem describe codec blockPayload).mapError fun
    | .report report => .report ("failed to skip block header" :: report)
    | fault => fault
  extractEncodedTxsFromBody describe codec blockPayload

/-- `extract_reorg_transactions` -/
def extractReorgTransactionsFromBody (body : List UInt8) : Except Fault (List (List UInt8)) := do
  let encoded ← extractEncodedTxsFromBody describe codec body
  .ok (extractReorgTransactions 0 encoded)

end

/-! ## Every input is settled -/

/-- The result is a value or an error that is returned, not an index out of bounds and not a loop
    without an end. -/
def Settled {α : Type} (result : Except Fault α) : Prop :=
  ∀ fault, result = .error fault → ∃ report, fault = .report report

namespace Settled

variable {α β : Type}

theorem ok (a : α) : Settled (.ok a) := nofun

theorem report (report : Report) : Settled (.error (.report report) : Except Fault α) := by
  rintro fault ⟨⟩
  exact ⟨report, rfl⟩

theorem wrapFault {ε : Type} (describe : ε → Report) (result : Except ε α) (message : String) :
    Settled (wrapFault describe result message) := by
  cases result with
  | ok a => exact ok a
  | error e => exact report _

theorem bind {x : Except Fault α} {f : α → Except Fault β} (hx : Settled x)
    (hf : ∀ a, x = .ok a → Settled (f a)) : Settled (x >>= f) := by
  cases x with
  | ok a => exact hf a rfl
  | error e =>
      rintro fault ⟨⟩
      exact hx _ rfl

theorem sliceTo {buf : List UInt8} {n : ℕ} (h : n ≤ buf.length) :
    Settled (SendBlocks.sliceTo buf n) := by
  rw [SendBlocks.sliceTo, if_pos h]
  exact ok _

theorem sliceFrom {buf : List UInt8} {n : ℕ} (h : n ≤ buf.length) :
    Settled (SendBlocks.sliceFrom buf n) := by
  rw [SendBlocks.sliceFrom, if_pos h]
  exact ok _

end Settled

section

variable {ε : Type} {describe : ε → Report} {codec : Codec ε}

@[simp] theorem wrapFault_eq_ok {α : Type} {result : Except ε α} {message : String} {a : α} :
    wrapFault describe result message = .ok a ↔ result = .ok a := by
  cases result <;> simp [wrapFault, Except.mapError]

@[simp] theorem sliceFrom_eq_ok {buf rest : List UInt8} {n : ℕ} :
    sliceFrom buf n = .ok rest ↔ n ≤ buf.length ∧ buf.drop n = rest := by
  unfold sliceFrom
  split <;> simp [*]

/-- A turn of the loop stays inside the input, and the list after the item is shorter. -/
theorem nextEncodedTx_settled (hcodec : codec.Lawful) (txsPayload : List UInt8) :
    Settled (nextEncodedTx describe codec txsPayload) ∧
      ∀ encoded rest, nextEncodedTx describe codec txsPayload = .ok (encoded, rest) →
        rest.length < txsPayload.length := by
  constructor
  · refine Settled.bind (Settled.wrapFault _ _ _) ?_
    rintro ⟨header, after⟩ hdecode
    rw [wrapFault_eq_ok] at hdecode
    have hbounded := hcodec.bounded _ _ _ hdecode
    obtain ⟨hle, -⟩ := hcodec.advances _ _ _ hdecode
    have hencoded : Settled (if header.list then
        sliceTo txsPayload (txsPayload.length - after.length + header.payloadLength)
        else sliceTo after header.payloadLength) := by
      split
      · exact Settled.sliceTo (by omega)
      · exact Settled.sliceTo hbounded
    refine hencoded.bind fun encoded _ => ?_
    exact (Settled.sliceFrom hbounded).bind fun rest _ => Settled.ok _
  · intro encoded rest hnext
    obtain ⟨⟨header, after⟩, hdecode, hnext⟩ := bind_eq_ok.1 hnext
    rw [wrapFault_eq_ok] at hdecode
    obtain ⟨hle, hlt⟩ := hcodec.advances _ _ _ hdecode
    dsimp only at hnext
    obtain ⟨_, -, hnext⟩ := bind_eq_ok.1 hnext
    obtain ⟨left, hleft, hnext⟩ := bind_eq_ok.1 hnext
    obtain ⟨hbounded, rfl⟩ := sliceFrom_eq_ok.1 hleft
    simp only [Except.ok.injEq, Prod.mk.injEq] at hnext
    obtain ⟨-, rfl⟩ := hnext
    rw [List.length_drop]
    omega

/-- The loop ends within as many turns as there are bytes. -/
theorem encodedTxs_settled (hcodec : codec.Lawful) {fuel : ℕ} {txsPayload : List UInt8}
    (hfuel : txsPayload.length ≤ fuel) : Settled (encodedTxs describe codec fuel txsPayload) := by
  induction fuel generalizing txsPayload with
  | zero =>
      obtain rfl : txsPayload = [] := by simpa using hfuel
      exact Settled.ok []
  | succ fuel ih =>
      cases txsPayload with
      | nil => exact Settled.ok []
      | cons b txsPayload =>
          obtain ⟨hsettled, hshorter⟩ := nextEncodedTx_settled hcodec (b :: txsPayload)
          refine hsettled.bind ?_
          rintro ⟨encoded, rest⟩ hnext
          have hlt := hshorter encoded rest hnext
          exact (ih (by omega)).bind fun txs _ => Settled.ok _

theorem extractEncodedTxsFromBody_settled (hcodec : codec.Lawful) (body : List UInt8) :
    Settled (extractEncodedTxsFromBody describe codec body) := by
  refine Settled.bind (Settled.wrapFault _ _ _) ?_
  rintro ⟨txsPayload, _⟩ -
  exact encodedTxs_settled hcodec (Nat.le_refl _)

theorem skipRlpItem_settled (hcodec : codec.Lawful) (buf : List UInt8) :
    Settled (skipRlpItem describe codec buf) := by
  refine Settled.bind (Settled.wrapFault _ _ _) ?_
  rintro ⟨header, rest⟩ hdecode
  exact Settled.sliceFrom (hcodec.bounded _ _ _ (wrapFault_eq_ok.1 hdecode))

theorem extractEncodedTxsFromBlockRlp_settled (hcodec : codec.Lawful) (raw : List UInt8) :
    Settled (extractEncodedTxsFromBlockRlp describe codec raw) := by
  have hfields : Settled (blockRlpFields describe codec raw) := by
    refine Settled.bind (Settled.wrapFault _ _ _) ?_
    rintro ⟨blockPayload, blockBuf⟩ -
    simp only
    split
    · exact (Settled.report _).bind nofun
    · exact Settled.ok _
  refine hfields.bind fun blockPayload _ => ?_
  have hskip : Settled (skipRlpItem describe codec blockPayload) :=
    skipRlpItem_settled hcodec blockPayload
  refine Settled.bind ?_ fun rest _ => extractEncodedTxsFromBody_settled hcodec rest
  cases hresult : skipRlpItem describe codec blockPayload with
  | ok rest => exact Settled.ok rest
  | error fault =>
      obtain ⟨report, rfl⟩ := hskip fault hresult
      exact Settled.report _

/-! ## Every transaction is found -/

/-- A transaction in a block, with the fields of its list or the payload behind its type. -/
inductive BlockTx
  | legacy (fields : List UInt8)
  | typed (txType : UInt8) (payload : List UInt8)

namespace BlockTx

/-- The EIP-2718 byte string of a transaction -/
def eip2718 : BlockTx → List UInt8
  | legacy fields => Rlp.encodeList fields
  | typed txType payload => txType :: payload

/-- The transaction as an item of the block's transaction list: a list, or a string around a type and
    its payload. -/
def item : BlockTx → List UInt8
  | legacy fields => Rlp.encodeList fields
  | typed txType payload => Rlp.encodeString (txType :: payload)

end BlockTx

/-- The fields of a block after its header -/
def encodeBody (txs : List BlockTx) (rest : List UInt8) : List UInt8 :=
  Rlp.encodeList (txs.flatMap BlockTx.item) ++ rest

/-- A block with the fields of its header, its transactions and what follows them -/
def encodeBlock (headerFields : List UInt8) (txs : List BlockTx) (rest : List UInt8) : List UInt8 :=
  Rlp.encodeList (Rlp.encodeList headerFields ++ encodeBody txs rest)

/-- All but every tenth entry -/
def dropEveryTenth {α : Type} (l : List α) : List α :=
  (l.zipIdx.filter fun p => (p.2 + 1) % 10 ≠ 0).map Prod.fst

theorem length_lt_encodeList (payload : List UInt8) :
    payload.length < (Rlp.encodeList payload).length := by
  rw [Rlp.encodeList, Rlp.encodeHeader]
  split
  · simp
  · simp only [List.length_append, List.length_cons]
    omega

theorem BlockTx.length_item_pos (tx : BlockTx) : 0 < tx.item.length := by
  cases tx with
  | legacy fields => exact Nat.zero_lt_of_lt (length_lt_encodeList fields)
  | typed txType payload =>
      rw [BlockTx.item, Rlp.encodeString]
      split
      · simp
      · simp only [List.length_append, List.length_cons]
        omega

/-- A turn of the loop cuts out the transaction of the item. -/
theorem nextEncodedTx_item (hcodec : codec.Lawful) (tx : BlockTx) (rest : List UInt8)
    (hlength : tx.item.length < 2 ^ 64) :
    nextEncodedTx describe codec (tx.item ++ rest) = .ok (tx.eip2718, rest) := by
  cases tx with
  | legacy fields =>
      have hfields := length_lt_encodeList fields
      have hdecode := hcodec.list fields rest (Nat.lt_trans hfields hlength)
      have htaken : (Rlp.encodeList fields ++ rest).length - (fields ++ rest).length + fields.length
          = (Rlp.encodeList fields).length := by
        simp only [List.length_append]
        omega
      simp [nextEncodedTx, BlockTx.item, BlockTx.eip2718, wrapFault, Except.mapError, hdecode,
        sliceTo, sliceFrom, bind, Except.bind, -List.length_append, htaken]
      simp
  | typed txType payload =>
      have hpayload : (txType :: payload).length ≤ (BlockTx.typed txType payload).item.length := by
        rw [BlockTx.item, Rlp.encodeString]
        split <;> simp
      have hdecode := @Codec.Lawful.decode_string _ _ hcodec (txType :: payload) (by omega) rest
      simp [nextEncodedTx, BlockTx.item, BlockTx.eip2718, wrapFault, Except.mapError, hdecode,
        sliceTo, sliceFrom, bind, Except.bind]

theorem encodedTxs_items (hcodec : codec.Lawful) {txs : List BlockTx} {fuel : ℕ}
    (hfuel : (txs.flatMap BlockTx.item).length ≤ fuel)
    (hlength : (txs.flatMap BlockTx.item).length < 2 ^ 64) :
    encodedTxs describe codec fuel (txs.flatMap BlockTx.item) = .ok (txs.map BlockTx.eip2718) := by
  induction txs generalizing fuel with
  | nil => cases fuel <;> rfl
  | cons tx txs ih =>
      have hpos := tx.length_item_pos
      simp only [List.flatMap_cons, List.length_append] at hfuel hlength
      obtain ⟨fuel, rfl⟩ : ∃ n, fuel = n + 1 := ⟨fuel - 1, by omega⟩
      have hnext : nextEncodedTx describe codec (tx.item ++ txs.flatMap BlockTx.item)
          = .ok (tx.eip2718, txs.flatMap BlockTx.item) :=
        nextEncodedTx_item hcodec tx _ (by omega)
      have hrest := @ih fuel (by omega) (by omega)
      obtain ⟨b, bs, hbytes⟩ : ∃ b bs, tx.item ++ txs.flatMap BlockTx.item = b :: bs :=
        List.exists_cons_of_length_pos (by simp only [List.length_append]; omega)
      rw [List.flatMap_cons, hbytes, encodedTxs, ← hbytes, hnext]
      · simp [bind, Except.bind, hrest]
      · simp

theorem extractEncodedTxsFromBody_encode (hcodec : codec.Lawful) (txs : List BlockTx)
    (rest : List UInt8) (hlength : (encodeBody txs rest).length < 2 ^ 64) :
    extractEncodedTxsFromBody describe codec (encodeBody txs rest)
      = .ok (txs.map BlockTx.eip2718) := by
  have hitems : (txs.flatMap BlockTx.item).length < 2 ^ 64 := by
    have := length_lt_encodeList (txs.flatMap BlockTx.item)
    simp only [encodeBody, List.length_append] at hlength
    omega
  have hbytes := hcodec.decodeBytes_list hitems rest
  rw [extractEncodedTxsFromBody, encodeBody, hbytes]
  exact encodedTxs_items hcodec (Nat.le_refl _) hitems

theorem extractEncodedTxsFromBlockRlp_encode (hcodec : codec.Lawful) (headerFields : List UInt8)
    (txs : List BlockTx) (rest : List UInt8)
    (hlength : (encodeBlock headerFields txs rest).length < 2 ^ 64) :
    extractEncodedTxsFromBlockRlp describe codec (encodeBlock headerFields txs rest)
      = .ok (txs.map BlockTx.eip2718) := by
  have houter := length_lt_encodeList (Rlp.encodeList headerFields ++ encodeBody txs rest)
  have hheader := length_lt_encodeList headerFields
  rw [encodeBlock] at hlength
  have hfields : blockRlpFields describe codec (encodeBlock headerFields txs rest)
      = .ok (Rlp.encodeList headerFields ++ encodeBody txs rest) := by
    have hbytes := hcodec.decodeBytes_list (Nat.lt_trans houter hlength) []
    rw [List.append_nil] at hbytes
    simp [blockRlpFields, encodeBlock, hbytes, wrapFault, Except.mapError, bind, Except.bind]
  simp only [List.length_append] at houter
  have hskip : skipRlpItem describe codec (Rlp.encodeList headerFields ++ encodeBody txs rest)
      = .ok (encodeBody txs rest) := by
    have hdecode := hcodec.list headerFields (encodeBody txs rest) (by omega)
    simp [skipRlpItem, hdecode, wrapFault, Except.mapError, bind, Except.bind, sliceFrom]
  rw [extractEncodedTxsFromBlockRlp, hfields]
  simp only [bind, Except.bind, hskip, Except.mapError]
  exact extractEncodedTxsFromBody_encode hcodec txs rest (by omega)

/-- The count keeps all but every tenth non-blob transaction. -/
theorem extractReorgTransactions_eq (counted : ℕ) (encoded : List (List UInt8)) :
    extractReorgTransactions counted encoded
      = (((encoded.filter fun tx => !isBlobTransaction tx).zipIdx counted).filter
          fun p => (p.2 + 1) % 10 ≠ 0).map Prod.fst := by
  induction encoded generalizing counted with
  | nil => rfl
  | cons tx encoded ih =>
      rw [extractReorgTransactions]
      split
      · rename_i hblob
        simp [ih, hblob]
      · rename_i hblob
        split
        · rename_i hkeep
          have hkept : (counted + 1) % 10 ≠ 0 := of_decide_eq_true hkeep
          simp [ih, hblob, hkept]
        · rename_i hdrop
          have hdropped : (counted + 1) % 10 = 0 := by
            by_contra hne
            exact hdrop (decide_eq_true hne)
          simp [ih, hblob, hdropped]

end

/-- The transactions of an encoded block are extracted exactly, those for a side fork without blobs and
    without every tenth of the others, and no input makes the extraction read out of bounds or run
    forever. -/
theorem block_extraction {ε : Type} (describe : ε → Report) (codec : Codec ε)
    (hcodec : codec.Lawful) :
    (∀ (headerFields : List UInt8) (txs : List BlockTx) (rest : List UInt8),
        (encodeBlock headerFields txs rest).length < 2 ^ 64 →
          extractEncodedTxsFromBlockRlp describe codec (encodeBlock headerFields txs rest)
            = .ok (txs.map BlockTx.eip2718)) ∧
      (∀ (txs : List BlockTx) (rest : List UInt8), (encodeBody txs rest).length < 2 ^ 64 →
        extractReorgTransactionsFromBody describe codec (encodeBody txs rest) = .ok (dropEveryTenth
          ((txs.map BlockTx.eip2718).filter fun tx => !isBlobTransaction tx))) ∧
      (∀ raw : List UInt8, Settled (extractEncodedTxsFromBlockRlp describe codec raw)) ∧
      ∀ body : List UInt8, Settled (extractReorgTransactionsFromBody describe codec body) := by
  refine ⟨fun headerFields txs rest hlength =>
      extractEncodedTxsFromBlockRlp_encode hcodec headerFields txs rest hlength,
    fun txs rest hlength => ?_, extractEncodedTxsFromBlockRlp_settled hcodec, fun body => ?_⟩
  · rw [extractReorgTransactionsFromBody, extractEncodedTxsFromBody_encode hcodec txs rest hlength]
    simp only [bind, Except.bind, extractReorgTransactions_eq]
    rfl
  · exact (extractEncodedTxsFromBody_settled hcodec body).bind fun _ _ => Settled.ok _

namespace ExtractionSample

/-- A legacy transaction, a typed one of one byte and a blob transaction -/
def txs : List BlockTx := [.legacy [1, 2], .typed 2 [], .typed 3 [9]]

theorem block_extraction_sample :
    extractEncodedTxsFromBlockRlp (fun _ => []) Rlp.reference (encodeBlock [7] txs [0xc0])
        = .ok [[0xc2, 1, 2], [2], [3, 9]] ∧
      extractReorgTransactionsFromBody (fun _ => []) Rlp.reference (encodeBody txs [0xc0])
        = .ok [[0xc2, 1, 2], [2]] := by
  obtain ⟨hall, hreorg, -⟩ := block_extraction (fun _ => []) Rlp.reference Rlp.reference_lawful
  constructor
  · simpa [BlockTx.eip2718, txs, Rlp.encodeList, Rlp.encodeHeader, Rlp.offset] using
      hall [7] txs [0xc0] (by decide)
  · refine (hreorg txs [0xc0] (by decide)).trans (congrArg Except.ok ?_)
    decide

end ExtractionSample

end TxGen.SendBlocks
