import Alqo.CoinsDisk

/-!
# Undo data as it is written to disk (undo.h, main.h, main.cpp, serialize.h)

A record packs the height and the two flags into one number; a height of zero says that the version
is left out. The rounds of an output are not written.
-/

namespace Alqo
open Lib.Codec Lib.Fallible Lib.UndoLog List

def MAX_SIZE : Nat := 0x02000000

/- A length of `w` bytes, which a shorter form could not have held. -/
def readSize (w least : Nat) : Reader UInt8 Nat := do
  let nSizeRet ← leValue <$> take w
  check (least ≤ nSizeRet)
  return nSizeRet

def readLongSize (chSize : Nat) : Reader UInt8 Nat :=
  if chSize < 253 then pure chSize
  else if chSize = 253 then readSize 2 253
  else if chSize = 254 then readSize 4 0x10000
  else readSize 8 0x100000000

def readCompactSize : Reader UInt8 Nat := do
  let chSize ← leValue <$> take 1
  let nSizeRet ← readLongSize chSize
  check (nSizeRet ≤ MAX_SIZE)
  return nSizeRet

variable {A : Type} {n : Nat} {Q : Nat → Int → CTxOut → Prop}

def writeVector (write : A → Bytes) (v : List A) : Bytes := compactSize v.length ++ v.flatMap write

def readItem (read : Reader UInt8 A) (_ : Nat) (v : List A) : Reader UInt8 (List A) := do
  let a ← read
  return v ++ [a]

/- The items are read into new objects -/
def readVector (read : Reader UInt8 A) : Reader UInt8 (List A) := do
  let nSize ← readCompactSize
  loop (readItem read) nSize 0 []

theorem reads_leValue (w n : Nat) (h : n < 256 ^ w) :
    Reads (leValue <$> take w) (leBytes w n) n := by
  have hread := (reads_take (length_leBytes w n)).map leValue
  rwa [leValue_leBytes w n h] at hread

theorem reads_size {w least : Nat} (h : n < 256 ^ w) (hle : least ≤ n) :
    Reads (readSize w least) (leBytes w n) n := by
  refine (reads_leValue w n h).bind_last ?_
  rw [decide_eq_true hle]
  rfl

theorem reads_compactSize (h : n ≤ MAX_SIZE) : Reads readCompactSize (compactSize n) n := by
  have hmax : n ≤ 0x02000000 := h
  have hlast : (do check (decide (n ≤ MAX_SIZE)); return n : Reader UInt8 Nat) = pure n := by
    rw [decide_eq_true h]
    rfl
  unfold compactSize
  by_cases h1 : n < 253
  · have hshort : readLongSize n = pure n := if_pos h1
    rw [if_pos h1, ← append_nil (leBytes 1 n)]
    refine (reads_leValue 1 n (by omega)).bind ?_
    rw [hshort]
    exact (Reads.pure n).bind_last hlast
  rw [if_neg h1]
  by_cases h2 : n ≤ 0xffff
  · rw [if_pos h2]
    have hread : Reads (readLongSize 253) (leBytes 2 n) n := reads_size (by omega) (by omega)
    exact (reads_leValue 1 253 (by omega)).bind (hread.bind_last hlast)
  · rw [if_neg h2, if_pos (by omega)]
    have hread : Reads (readLongSize 254) (leBytes 4 n) n := reads_size (by omega) (by omega)
    exact (reads_leValue 1 254 (by omega)).bind (hread.bind_last hlast)

theorem reads_vector {write : A → Bytes} {read : Reader UInt8 A} {back : A → A} {v : List A}
    (hsize : v.length ≤ MAX_SIZE) (h : ∀ a ∈ v, Reads read (write a) (back a)) :
    Reads (readVector read) (writeVector write v) (v.map back) := by
  -- the items read so far and those still to be read make up the vector
  have hturn : ∀ (i : Nat) (a : A) (rest seen : List A),
      (seen ++ (a :: rest).map back = v.map back ∧ ∀ b ∈ a :: rest, Reads read (write b) (back b)) →
      ∃ seen', Reads (readItem read i seen) (write a) seen' ∧
        (seen' ++ rest.map back = v.map back ∧ ∀ b ∈ rest, Reads read (write b) (back b)) := by
    intro i a rest seen hinv
    obtain ⟨heq, hrest⟩ := hinv
    refine ⟨seen ++ [back a], (hrest a mem_cons_self).bind_last rfl, ?_, ?_⟩
    · rw [append_assoc]
      exact heq
    · intro b hb
      exact hrest b (mem_cons_of_mem _ hb)
  obtain ⟨t, hread, ht, -⟩ := reads_loop write
    (fun _ rest seen => seen ++ rest.map back = v.map back ∧
      ∀ a ∈ rest, Reads read (write a) (back a)) hturn 0 v [] ⟨rfl, h⟩
  rw [map_nil, append_nil] at ht
  rw [← ht]
  exact (reads_compactSize hsize).bind hread

namespace CTxInUndo

def code (u : CTxInUndo) : Nat :=
  (u.nHeight * 4 + (if u.fCoinBase then 2 else 0) + (if u.fCoinStake then 1 else 0)) % 2 ^ 32

def serialize (K : KeyRules) (u : CTxInUndo) : Bytes :=
  writeVarInt32 u.code ++ ((if u.nHeight > 0 then writeVarInt32 u.nVersion else []) ++
    writeTxOut K u.txout)

def readVersion (nHeight : Nat) : Reader UInt8 Int :=
  if nHeight > 0 then Lib.VarInt.read asInt else pure 0

/- Into a new object -/
def unserialize (K : KeyRules) : Reader UInt8 CTxInUndo := do
  let nCode ← Int.toNat <$> Lib.VarInt.read asUInt32
  let nVersion ← readVersion (nCode / 4)
  let txout ← readTxOut K CTxOut.null
  return ⟨txout, nCode.testBit 1, nCode.testBit 0, nCode / 4, nVersion⟩

def reset (u : CTxInUndo) : CTxInUndo := { u with txout := { u.txout with nRounds := -10 } }

variable {u : CTxInUndo} {K : KeyRules}

theorem reset_eq_self (h : u.txout.nRounds = -10) : u.reset = u := by
  rw [reset, ← h]

structure Fits (u : CTxInUndo) : Prop where
  out : CCoins.Storable u.txout
  height : u.nHeight < 2 ^ 30
  version : 0 ≤ u.nVersion ∧ u.nVersion < 2 ^ 31
  known : u.nHeight = 0 → u.nVersion = 0

theorem code_eq (h : u.nHeight < 2 ^ 30) :
    u.code / 4 = u.nHeight ∧ u.code.testBit 1 = u.fCoinBase ∧ u.code.testBit 0 = u.fCoinStake := by
  have hcode : u.code = u.nHeight * 4 + (if u.fCoinBase then 2 else 0) +
      if u.fCoinStake then 1 else 0 := by
    rw [code]
    split_ifs <;> omega
  rw [Nat.testBit_zero, Nat.testBit_succ, Nat.testBit_zero, hcode]
  cases u.fCoinBase <;> cases u.fCoinStake <;> simp <;> omega

theorem reads_record (hK : K.Inverts) (h : u.Fits) :
    Reads (unserialize K) (u.serialize K) u.reset := by
  obtain ⟨hheight, hbase, hstake⟩ := code_eq h.height
  have hlt : u.code < 2 ^ 32 := Nat.mod_lt _ (by decide)
  have hread := (reads_uint32 (n := u.code) (by omega) (by omega)).map Int.toNat
  rw [Int.toNat_natCast] at hread
  have hversion : Reads (readVersion (u.code / 4))
      (if u.nHeight > 0 then writeVarInt32 u.nVersion else []) u.nVersion := by
    rw [hheight, readVersion]
    refine Reads.ite (fun _ => reads_int h.version.1 h.version.2) fun hzero => ?_
    rw [h.known (by omega)]
    exact Reads.pure 0
  refine hread.bind (hversion.bind ((reads_txOut hK h.out.value h.out.script CTxOut.null).bind_last ?_))
  rw [hheight, hbase, hstake]
  rfl

end CTxInUndo

namespace CTxUndo

def serialize (K : KeyRules) (u : CTxUndo) : Bytes := writeVector (CTxInUndo.serialize K) u.vprevout

def unserialize (K : KeyRules) : Reader UInt8 CTxUndo :=
  CTxUndo.mk <$> readVector (CTxInUndo.unserialize K)

def reset (u : CTxUndo) : CTxUndo := ⟨u.vprevout.map CTxInUndo.reset⟩

theorem reads_undo {K : KeyRules} (hK : K.Inverts) {u : CTxUndo}
    (hsize : u.vprevout.length ≤ MAX_SIZE) (h : ∀ r ∈ u.vprevout, r.Fits) :
    Reads (unserialize K) (u.serialize K) u.reset :=
  (reads_vector hsize fun r hr => CTxInUndo.reads_record hK (h r hr)).map CTxUndo.mk

end CTxUndo

namespace CBlockUndo

def serialize (K : KeyRules) (vtxundo : List CTxUndo) : Bytes :=
  writeVector (CTxUndo.serialize K) vtxundo

section
variable (K : KeyRules) (Hash : Bytes → uint256) (hashBlock : uint256)

def checksum (vtxundo : List CTxUndo) : uint256 :=
  Hash (leBytes 32 hashBlock.toNat ++ serialize K vtxundo)

/- What is written from `pos` on -/
def writeToDisk (vtxundo : List CTxUndo) : Bytes :=
  serialize K vtxundo ++ leBytes 32 (checksum K Hash hashBlock vtxundo).toNat

/- From `pos` on; `none` is an exception or a checksum that is wrong -/
def readFromDisk : Reader UInt8 (List CTxUndo) := do
  let vtxundo ← readVector (CTxUndo.unserialize K)
  let hashChecksum ← leValue <$> take 32
  check (hashChecksum == (checksum K Hash hashBlock vtxundo).toNat)
  return vtxundo

end

variable {K : KeyRules}

theorem serialize_reset (vtxundo : List CTxUndo) :
    serialize K (vtxundo.map CTxUndo.reset) = serialize K vtxundo := by
  have hundo : ∀ u : CTxUndo, u.reset.serialize K = u.serialize K := by
    intro u
    rw [CTxUndo.serialize, CTxUndo.serialize, CTxUndo.reset, writeVector, writeVector,
      length_map, flatMap_map]
    rfl
  rw [serialize, serialize, writeVector, writeVector, length_map, flatMap_map]
  simp only [hundo]

theorem reads_blockUndo (hK : K.Inverts) (Hash : Bytes → uint256) (hashBlock : uint256)
    {vtxundo : List CTxUndo} (hsize : vtxundo.length ≤ MAX_SIZE)
    (hsizes : ∀ u ∈ vtxundo, u.vprevout.length ≤ MAX_SIZE)
    (h : ∀ u ∈ vtxundo, ∀ r ∈ u.vprevout, r.Fits) :
    Reads (readFromDisk K Hash hashBlock) (writeToDisk K Hash hashBlock vtxundo)
      (vtxundo.map CTxUndo.reset) := by
  have hvector := reads_vector hsize fun u hu => CTxUndo.reads_undo hK (hsizes u hu) (h u hu)
  have hsum := reads_leValue 32 (checksum K Hash hashBlock vtxundo).toNat (BitVec.isLt _)
  refine hvector.bind (hsum.bind_last ?_)
  have hsame : checksum K Hash hashBlock (vtxundo.map CTxUndo.reset) =
      checksum K Hash hashBlock vtxundo := by
    rw [checksum, checksum, serialize_reset]
  rw [hsame, BEq.rfl]
  rfl

end CBlockUndo

def CCoins.All (Q : Nat → Int → CTxOut → Prop) (c : CCoins) : Prop :=
  ∀ n out, c.unspent n = some out → Q c.nHeight c.nVersion out

def CoinsView.All (Q : Nat → Int → CTxOut → Prop) (view : CoinsView) : Prop :=
  ∀ txid, (view.coins.coins txid).All Q

def CTransaction.All (Q : Nat → Int → CTxOut → Prop) (nHeight : Nat) (tx : CTransaction) : Prop :=
  ∀ out ∈ tx.vout, out.isNull = false → Q nHeight tx.nVersion out

def CTxInUndo.From (Q : Nat → Int → CTxOut → Prop) (r : CTxInUndo) : Prop :=
  ∃ nHeight nVersion, Q nHeight nVersion r.txout ∧
    ((r.nHeight = nHeight ∧ r.nVersion = nVersion) ∨ (r.nHeight = 0 ∧ r.nVersion = 0))

namespace CoinsView

variable {Q : Nat → Int → CTxOut → Prop} {view view' : CoinsView} {nHeight : Nat}
  {tx : CTransaction}

theorem All.modify (h : view.All Q) {txid : uint256} {edit : CCoins → CCoins}
    (hedit : (edit (view.coins.coins txid)).All Q) :
    ({ view with coins := view.coins.modify txid edit } : CoinsView).All Q := by
  intro x
  show ((view.coins.modify txid edit).coins x).All Q
  by_cases hx : x = txid
  · rw [hx, CoinsMap.coins_modify_self]
    split_ifs with hpruned
    · intro n out hout
      cases hout
    · intro n out hout
      rw [CCoins.unspent_cleanup] at hout
      exact hedit n out hout
  · rw [CoinsMap.coins_modify_of_ne _ _ _ _ hx]
    exact h x

theorem All.spendInput (h : view.All Q) {p : COutPoint} {r : CTxInUndo}
    (hspend : view.spendInput p = .ok (view', r)) : view'.All Q ∧ r.From Q := by
  unfold CoinsView.spendInput at hspend
  cases hs : (view.coins.coins p.hash).spend p with
  | none =>
    rw [hs] at hspend
    cases hspend
  | some res =>
    obtain ⟨c', undo⟩ := res
    rw [hs] at hspend
    cases hspend
    obtain ⟨txout, htxout, -, hundo⟩ := (CCoins.spend_some_iff ..).mp hs
    constructor
    · apply h.modify
      intro n out hout
      rw [CCoins.unspent_spent] at hout
      by_cases hn : n = p.n
      · rw [hn, Function.update_self] at hout
        cases hout
      · rw [Function.update_of_ne hn] at hout
        exact h p.hash n out hout
    · have hQ := h p.hash p.n txout htxout
      rw [hundo, CCoins.undoFor]
      split_ifs with hlast
      · exact ⟨_, _, hQ, .inl ⟨rfl, rfl⟩⟩
      · exact ⟨_, _, hQ, .inr ⟨rfl, rfl⟩⟩

theorem All.spendInputs (h : view.All Q) {prevouts : List COutPoint} {undos : List CTxInUndo}
    (hspend : view.spendInputs prevouts = .ok (view', undos)) :
    view'.All Q ∧ ∀ r ∈ undos, r.From Q := by
  induction prevouts generalizing view undos with
  | nil =>
    cases hspend
    exact ⟨h, fun r hr => by cases hr⟩
  | cons p rest ih =>
    obtain ⟨mid, r, us, hp, hrest, rfl⟩ := recordAll_cons_ok_iff.mp hspend
    obtain ⟨hmid, hr⟩ := h.spendInput hp
    obtain ⟨hend, hus⟩ := ih hmid hrest
    exact ⟨hend, forall_mem_cons.mpr ⟨hr, hus⟩⟩

theorem all_fromTx (h : tx.All Q nHeight) : (CCoins.fromTx tx nHeight).All Q := by
  intro n out hout
  rw [CCoins.fromTx, CCoins.clearUnspendable, CCoins.unspent_cleanup] at hout
  obtain ⟨hget, hnull⟩ := (CCoins.unspent_eq_some_iff ..).mp hout
  obtain ⟨before, hbefore, hkept⟩ := getElem?_map .. ▸ hget |> Option.map_eq_some_iff.mp
  split_ifs at hkept with hscript
  · rw [← hkept] at hnull
    cases hnull
  · rw [← hkept] at hnull ⊢
    exact h before (mem_of_getElem? hbefore) hnull

theorem All.updateCoins (h : view.All Q) (htx : tx.All Q nHeight) {txundo : CTxUndo}
    (hupdate : view.updateCoins tx nHeight = .ok (view', txundo)) :
    view'.All Q ∧ (∀ r ∈ txundo.vprevout, r.From Q) ∧ txundo.vprevout.length ≤ tx.vin.length := by
  rw [updateCoins_eq] at hupdate
  cases hspend : view.spendInputs tx.spends with
  | error e =>
    rw [hspend] at hupdate
    cases hupdate
  | ok res =>
    obtain ⟨mid, undos⟩ := res
    rw [hspend] at hupdate
    cases hupdate
    obtain ⟨hmid, hundos⟩ := h.spendInputs hspend
    refine ⟨hmid.modify (all_fromTx htx), hundos, ?_⟩
    show undos.length ≤ _
    rw [recordAll_length hspend, CTransaction.spends]
    split_ifs with hbase
    · exact Nat.zero_le _
    · rw [CTransaction.prevouts, length_map]

/- `UpdateCoins` for each transaction of a block, with all the records. -/
def updateVtx (view : CoinsView) (nHeight : Nat) (vtx : List CTransaction) :
    Except Failure (CoinsView × List CTxUndo) :=
  recordAll (fun view tx => view.updateCoins tx nHeight) view vtx

theorem All.updateVtx (h : view.All Q) {vtx : List CTransaction} (hvtx : ∀ tx ∈ vtx, tx.All Q nHeight)
    {undos : List CTxUndo} (hupdate : view.updateVtx nHeight vtx = .ok (view', undos)) :
    ∀ u ∈ undos, (∀ r ∈ u.vprevout, r.From Q) ∧ ∃ tx ∈ vtx, u.vprevout.length ≤ tx.vin.length := by
  induction vtx generalizing view undos with
  | nil =>
    cases hupdate
    exact fun u hu => by cases hu
  | cons tx rest ih =>
    obtain ⟨mid, u, us, htx, hrest, rfl⟩ := recordAll_cons_ok_iff.mp hupdate
    obtain ⟨hmid, hfrom, hlength⟩ := h.updateCoins (hvtx tx mem_cons_self) htx
    have hlater := ih hmid (fun t ht => hvtx t (mem_cons_of_mem _ ht)) hrest
    refine forall_mem_cons.mpr ⟨⟨hfrom, tx, mem_cons_self, hlength⟩, fun v hv => ?_⟩
    obtain ⟨hv, t, ht, hle⟩ := hlater v hv
    exact ⟨hv, t, mem_cons_of_mem _ ht, hle⟩

end CoinsView

/- `ConnectBlock` keeps the records of all transactions but the first. -/
theorem connectVtx_updateVtx {node : Node} {fScriptChecks : Bool} {nHeight : Nat} {view : CoinsView}
    {vtx : List CTransaction} {s : ConnectState}
    (h : connectVtx node fScriptChecks nHeight vtx { view := view } = .ok s) :
    ∃ undos, view.updateVtx nHeight vtx = .ok (s.view, undos) ∧ s.vtxundo = undos.tail := by
  refine runFrom_induct (fun seen s => ∃ undos, view.updateVtx nHeight seen = .ok (s.view, undos) ∧
    s.vtxundo = undos.tail) ?_ [] ⟨[], rfl, rfl⟩ h
  intro seen tx s s' hseen hstep
  obtain ⟨undos, hundos, htail⟩ := hseen
  obtain ⟨mid, after, txundo, hmid, hupdate, rfl⟩ := connectTx_ok node fScriptChecks hstep
  obtain ⟨hview, hvtxundo, -⟩ := beforeUpdateCoins_view node fScriptChecks hmid
  rw [hview] at hupdate
  refine ⟨undos ++ [txundo], recordAll_append_ok_iff.mpr ⟨s.view, undos, [txundo], hundos, ?_, rfl⟩, ?_⟩
  · exact recordAll_cons_ok_iff.mpr ⟨after, txundo, [], hupdate, rfl, rfl⟩
  · have hlength := recordAll_length hundos
    cases seen with
    | nil =>
      rw [length_nil, length_eq_zero_iff] at hlength
      rw [hlength] at htail ⊢
      exact hvtxundo.trans htail
    | cons first rest =>
      cases undos with
      | nil => cases hlength
      | cons u us =>
        show mid.vtxundo ++ [txundo] = us ++ [txundo]
        rw [hvtxundo, htail]
        rfl

structure Undoable (nHeight : Nat) (nVersion : Int) (out : CTxOut) : Prop where
  out : CCoins.Storable out
  height : 1 ≤ nHeight ∧ nHeight < 2 ^ 30
  version : 0 ≤ nVersion ∧ nVersion < 2 ^ 31

theorem CTxInUndo.From.fits {r : CTxInUndo} (h : r.From Undoable) : r.Fits := by
  obtain ⟨nHeight, nVersion, hout, hmeta⟩ := h
  have hheight := hout.height
  have hversion := hout.version
  rcases hmeta with ⟨h1, h2⟩ | ⟨h1, h2⟩
  · exact ⟨hout.out, by omega, by omega, by omega⟩
  · exact ⟨hout.out, by omega, by omega, by omega⟩

def Fresh (_ : Nat) (_ : Int) (out : CTxOut) : Prop := out.nRounds = -10

theorem reset_of_fresh {vtxundo : List CTxUndo}
    (h : ∀ u ∈ vtxundo, ∀ r ∈ u.vprevout, r.From Fresh) : vtxundo.map CTxUndo.reset = vtxundo := by
  have hundo : ∀ u ∈ vtxundo, u.reset = u := by
    intro u hu
    have hrecords : u.vprevout.map CTxInUndo.reset = u.vprevout.map id := by
      rw [map_inj_left]
      intro r hr
      obtain ⟨_, _, hrounds, -⟩ := h u hu r hr
      exact CTxInUndo.reset_eq_self hrounds
    rw [CTxUndo.reset, hrecords, map_id]
  calc vtxundo.map CTxUndo.reset = vtxundo.map id := map_inj_left.mpr hundo
    _ = vtxundo := map_id _

/- The undo data of a block is read back as it was written but for the rounds, which the format
leaves out and which every output that was read from a stream or from the disk has as a new one. -/
theorem readFromDisk_writeToDisk {K : KeyRules} (hK : K.Inverts) (Hash : Bytes → uint256)
    (hashBlock : uint256) {view view' : CoinsView} {vtx : List CTransaction} {nHeight : Nat}
    {undos : List CTxUndo} (hupdate : view.updateVtx nHeight vtx = .ok (view', undos))
    (hview : view.All Undoable) (hvtx : ∀ tx ∈ vtx, tx.All Undoable nHeight)
    (hsize : vtx.length ≤ MAX_SIZE) (hsizes : ∀ tx ∈ vtx, tx.vin.length ≤ MAX_SIZE) (rest : Bytes) :
    (CBlockUndo.readFromDisk K Hash hashBlock).run
        (CBlockUndo.writeToDisk K Hash hashBlock undos.tail ++ rest) =
      some (undos.tail.map CTxUndo.reset, rest) ∧
    (view.All Fresh → (∀ tx ∈ vtx, tx.All Fresh nHeight) →
      (CBlockUndo.readFromDisk K Hash hashBlock).run
          (CBlockUndo.writeToDisk K Hash hashBlock undos.tail ++ rest) =
        some (undos.tail, rest)) := by
  have hundos := hview.updateVtx hvtx hupdate
  have hlength := recordAll_length hupdate
  have hreads : Reads (CBlockUndo.readFromDisk K Hash hashBlock)
      (CBlockUndo.writeToDisk K Hash hashBlock undos.tail) (undos.tail.map CTxUndo.reset) := by
    apply CBlockUndo.reads_blockUndo hK
    · rw [length_tail]
      omega
    · intro u hu
      obtain ⟨-, tx, htx, hle⟩ := hundos u (mem_of_mem_tail hu)
      exact hle.trans (hsizes tx htx)
    · intro u hu r hr
      exact ((hundos u (mem_of_mem_tail hu)).1 r hr).fits
  refine ⟨hreads rest, fun hfresh htxs => ?_⟩
  have hreset := reset_of_fresh fun u hu =>
    (hfresh.updateVtx htxs hupdate u (mem_of_mem_tail hu)).1
  rw [hreads rest, hreset]

def spentView : CoinsView where
  coins := fun txid => if txid = 5 then some CCoins.plainCoins else none
  hashBlock := 0

def spendingVtx : List CTransaction :=
  [{ hash := 8, vin := [{ prevout := ⟨0, 0xffffffff⟩ }], vout := [⟨3, [0x51], -10⟩] },
    { hash := 9, vin := [{ prevout := ⟨5, 1⟩ }], vout := [⟨49, [0x52], -10⟩] }]

theorem spentView_all (h : Q 7 1 ⟨50, [0x51], -10⟩) :
    spentView.All Q := by
  intro txid n out hout
  by_cases hid : txid = 5
  · have hcoins : spentView.coins.coins txid = CCoins.plainCoins.coins := by
      rw [hid]
      rfl
    rw [hcoins] at hout ⊢
    obtain ⟨hget, hnull⟩ := (CCoins.unspent_eq_some_iff ..).mp hout
    have hmem : out ∈ [CTxOut.null, ⟨50, [0x51], -10⟩] := mem_of_getElem? hget
    simp only [mem_cons, not_mem_nil, or_false] at hmem
    rcases hmem with rfl | rfl
    · cases hnull
    · exact h
  · have hcoins : spentView.coins.coins txid = CCoins.clear := by
      have hnone : spentView.coins txid = none := if_neg hid
      rw [CoinsMap.coins, hnone]
    rw [hcoins] at hout
    cases hout

theorem spendingVtx_all (h : Q 8 1 ⟨3, [0x51], -10⟩) (h' : Q 8 1 ⟨49, [0x52], -10⟩) :
    ∀ tx ∈ spendingVtx, tx.All Q 8 := by
  intro tx htx out hout _
  simp only [spendingVtx, mem_cons, not_mem_nil, or_false] at htx
  rcases htx with rfl | rfl
  · rw [mem_singleton.mp hout]
    exact h
  · rw [mem_singleton.mp hout]
    exact h'

theorem readFromDisk_spending : ∃ view' undos, spentView.updateVtx 8 spendingVtx = .ok (view', undos) ∧
    undos.tail = [⟨[⟨⟨50, [0x51], -10⟩, false, true, 7, 1⟩]⟩] ∧
    (CBlockUndo.readFromDisk soleRules (fun _ => 0) 0).run
        (CBlockUndo.writeToDisk soleRules (fun _ => 0) 0 undos.tail ++ [1]) =
      some (undos.tail, [1]) := by
  refine ⟨_, _, rfl, by decide, ?_⟩
  refine (readFromDisk_writeToDisk soleRules_inverts _ _ rfl (spentView_all ?_)
    (spendingVtx_all ?_ ?_) (by decide) (by decide) [1]).2 (spentView_all rfl)
    (spendingVtx_all rfl rfl)
  · exact ⟨⟨by decide, by decide⟩, by decide, by decide⟩
  · exact ⟨⟨by decide, by decide⟩, by decide, by decide⟩
  · exact ⟨⟨by decide, by decide⟩, by decide, by decide⟩

end Alqo
