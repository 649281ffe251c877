import Alqo.Interpreter
import Alqo.MasternodeMessages

/-!
# Block signatures (blocksignature.cpp, script/standard.cpp, pubkey.h)

`SignBlock` takes a public key or the hash of one. `CheckBlockSignature` makes a public key of what
`Solver` returns in both cases, and no key has the length of a hash.
-/

namespace Alqo
open Option List

inductive txnouttype where
  | TX_NONSTANDARD
  | TX_PUBKEY
  | TX_PUBKEYHASH
  | TX_SCRIPTHASH
  | TX_MULTISIG
  | TX_NULL_DATA
  | TX_ZEROCOINMINT
deriving DecidableEq, Repr

/- An instruction of a template: the four placeholders or an opcode. -/
inductive TemplateOp where
  | OP_SMALLINTEGER
  | OP_PUBKEYS
  | OP_PUBKEYHASH
  | OP_PUBKEY
  | op (opcode : UInt8)
deriving DecidableEq, Repr

def OP_0 : UInt8 := 0x00
def OP_ZEROCOINMINT : UInt8 := 0xc1

namespace CScript
open TemplateOp

def decodeOP_N (opcode : UInt8) : UInt8 :=
  if opcode = OP_0 then 0 else opcode - (OP_1 - 1)

/- What one instruction adds to `vSolutionsRet`; `none` is `break`. -/
def matchOp : TemplateOp → (opcode1 : UInt8) → (vch1 : Bytes) → Option (List Bytes)
  | .OP_PUBKEY, _, vch1 => if vch1.length < 33 ∨ 65 < vch1.length then none else some [vch1]
  | .OP_PUBKEYHASH, _, vch1 => if vch1.length ≠ 20 then none else some [vch1]
  | .OP_SMALLINTEGER, opcode1, _ =>
    if opcode1 = OP_0 ∨ (OP_1 ≤ opcode1 ∧ opcode1 ≤ OP_16) then some [[decodeOP_N opcode1]]
    else none
  | .OP_PUBKEYS, opcode1, vch1 => if opcode1 ≠ 0xfb ∨ vch1 ≠ [] then none else some []
  | .op opcode2, opcode1, vch1 => if opcode1 ≠ opcode2 ∨ vch1 ≠ [] then none else some []

/- The loop for `OP_PUBKEYS`: the keys, and the instruction and position it stops at. When no
instruction can be read the opcode is the invalid one, which nothing in a template matches. -/
def takeKeys : (turns : Nat) → (opcode1 : UInt8) → (vch1 : Bytes) → (pc1 : CScript) →
    List Bytes × UInt8 × Bytes × CScript
  | 0, opcode1, vch1, pc1 => ([], opcode1, vch1, pc1)
  | turns + 1, opcode1, vch1, pc1 =>
    if 33 ≤ vch1.length ∧ vch1.length ≤ 65 then
      match getOp pc1 with
      | none => ([vch1], OP_INVALIDOPCODE, [], [])
      | some (opcode, vch, pc) =>
        let (keys, stop) := takeKeys turns opcode vch pc
        (vch1 :: keys, stop)
    else ([], opcode1, vch1, pc1)

/- One template: each turn reads one instruction of both scripts. -/
def matchTemplate : List TemplateOp → CScript → Option (List Bytes)
  | [], pc1 => if pc1 = [] then some [] else none
  | [.OP_PUBKEYS], _ => none
  | .OP_PUBKEYS :: next :: script2, pc1 => do
    let (opcode1, vch1, pc1) ← getOp pc1
    let (keys, opcode1, vch1, pc1) := takeKeys (pc1.length + 1) opcode1 vch1 pc1
    let found ← matchOp next opcode1 vch1
    let rest ← matchTemplate script2 pc1
    return keys ++ found ++ rest
  | next :: script2, pc1 => do
    let (opcode1, vch1, pc1) ← getOp pc1
    let found ← matchOp next opcode1 vch1
    let rest ← matchTemplate script2 pc1
    return found ++ rest

def mTemplates : List (txnouttype × List TemplateOp) :=
  [(.TX_PUBKEY, [OP_PUBKEY, op OP_CHECKSIG]),
   (.TX_PUBKEYHASH, [op OP_DUP, op OP_HASH160, OP_PUBKEYHASH, op OP_EQUALVERIFY, op OP_CHECKSIG]),
   (.TX_MULTISIG, [OP_SMALLINTEGER, OP_PUBKEYS, OP_SMALLINTEGER, op OP_CHECKMULTISIG])]

def multisigOk (vSolutions : List Bytes) : Bool :=
  match vSolutions.head?.bind List.head?, vSolutions.getLast?.bind List.head? with
  | some m, some n => !(m < 1 || n < 1 || n < m || vSolutions.length - 2 != n.toNat)
  | _, _ => false

def scanTemplates (script : CScript) :
    List (txnouttype × List TemplateOp) → Option (txnouttype × List Bytes)
  | [] => none
  | (type, script2) :: rest =>
    match matchTemplate script2 script with
    | none => scanTemplates script rest
    | some vSolutions =>
      if type = .TX_MULTISIG ∧ ¬ multisigOk vSolutions then none else some (type, vSolutions)

/- `none` where `Solver` returns false. The copy of a mint without a second byte throws. -/
def solver (script : CScript) : Option (txnouttype × List Bytes) :=
  if script.isPayToScriptHash then some (.TX_SCRIPTHASH, [(script.drop 2).take 20])
  else if script.head? = some OP_ZEROCOINMINT then
    if 150 < script.length ∨ script.length < 2 then none
    else some (.TX_ZEROCOINMINT, [script.drop 2])
  else if script.head? = some OP_RETURN ∧ isPushOnly (script.drop 1) then some (.TX_NULL_DATA, [])
  else scanTemplates script mTemplates

variable {opcode1 : UInt8} {vch1 : Bytes} {found vSolutions : List Bytes} {script pc1 : CScript}

theorem matchOp_pubkey (h : matchOp OP_PUBKEY opcode1 vch1 = some found) : found = [vch1] := by
  simp only [matchOp] at h
  split at h
  · cases h
  · exact (Option.some.inj h).symm

theorem matchOp_pubkeyhash (h : matchOp OP_PUBKEYHASH opcode1 vch1 = some found) :
    found = [vch1] ∧ vch1.length = 20 := by
  simp only [matchOp] at h
  split at h
  · cases h
  · rename_i hlength
    exact ⟨(Option.some.inj h).symm, not_not.mp hlength⟩

theorem matchOp_op {opcode : UInt8} (h : matchOp (op opcode) opcode1 vch1 = some found) :
    found = [] := by
  simp only [matchOp] at h
  split at h
  · cases h
  · exact (Option.some.inj h).symm

theorem matchTemplate_cons {next : TemplateOp} {script2 : List TemplateOp}
    (hnext : next ≠ OP_PUBKEYS) (h : matchTemplate (next :: script2) pc1 = some found) :
    ∃ opcode1 vch1 pc first rest, matchOp next opcode1 vch1 = some first ∧
      matchTemplate script2 pc = some rest ∧ found = first ++ rest := by
  rw [matchTemplate.eq_4 _ _ _ (fun h _ => hnext h) (fun _ _ h _ => hnext h)] at h
  obtain ⟨⟨opcode1, vch1, pc⟩, -, h⟩ := bind_eq_some_iff.mp h
  obtain ⟨first, hfirst, h⟩ := bind_eq_some_iff.mp h
  obtain ⟨rest, hrest, h⟩ := bind_eq_some_iff.mp h
  exact ⟨opcode1, vch1, pc, first, rest, hfirst, hrest, (Option.some.inj h).symm⟩

theorem matchTemplate_nil (h : matchTemplate [] pc1 = some found) : found = [] := by
  rw [matchTemplate] at h
  split at h
  · exact (Option.some.inj h).symm
  · cases h

theorem solutions_pubkey (h : matchTemplate [OP_PUBKEY, op OP_CHECKSIG] script = some vSolutions) :
    ∃ key, vSolutions = [key] := by
  obtain ⟨_, key, _, _, _, hkey, h1, hfound⟩ := matchTemplate_cons (by decide) h
  obtain ⟨_, _, _, _, _, hop, h2, hrest⟩ := matchTemplate_cons (by decide) h1
  rw [hfound, hrest, matchOp_pubkey hkey, matchOp_op hop, matchTemplate_nil h2]
  exact ⟨key, rfl⟩

theorem solutions_pubkeyhash
    (h : matchTemplate [op OP_DUP, op OP_HASH160, OP_PUBKEYHASH, op OP_EQUALVERIFY,
      op OP_CHECKSIG] script = some vSolutions) :
    ∃ hash, vSolutions = [hash] ∧ hash.length = 20 := by
  obtain ⟨_, _, _, _, _, hdup, h1, e1⟩ := matchTemplate_cons (by decide) h
  obtain ⟨_, _, _, _, _, hhash160, h2, e2⟩ := matchTemplate_cons (by decide) h1
  obtain ⟨_, hash, _, _, _, hhash, h3, e3⟩ := matchTemplate_cons (by decide) h2
  obtain ⟨_, _, _, _, _, hequal, h4, e4⟩ := matchTemplate_cons (by decide) h3
  obtain ⟨_, _, _, _, _, hcheck, h5, e5⟩ := matchTemplate_cons (by decide) h4
  obtain ⟨hfound, hlength⟩ := matchOp_pubkeyhash hhash
  rw [e1, e2, e3, e4, e5, matchOp_op hdup, matchOp_op hhash160, hfound, matchOp_op hequal,
    matchOp_op hcheck, matchTemplate_nil h5]
  exact ⟨hash, rfl, hlength⟩

theorem scanTemplates_spec {type : txnouttype} {tplates : List (txnouttype × List TemplateOp)}
    (h : scanTemplates script tplates = some (type, vSolutions)) :
    ∃ script2, (type, script2) ∈ tplates ∧ matchTemplate script2 script = some vSolutions := by
  induction tplates with
  | nil => cases h
  | cons tplate rest ih =>
    rw [scanTemplates] at h
    split at h
    · obtain ⟨script2, hmem, hmatch⟩ := ih h
      exact ⟨script2, mem_cons_of_mem _ hmem, hmatch⟩
    · rename_i hmatch
      split at h
      · cases h
      · cases h
        exact ⟨tplate.2, mem_cons_self, hmatch⟩

theorem solver_spec {type : txnouttype} (h : solver script = some (type, vSolutions)) :
    (type = .TX_PUBKEY → ∃ key, vSolutions = [key]) ∧
      (type = .TX_PUBKEYHASH → ∃ hash, vSolutions = [hash] ∧ hash.length = 20) := by
  rw [solver] at h
  split_ifs at h
  all_goals try cases h; exact ⟨fun h => (by cases h), fun h => (by cases h)⟩
  obtain ⟨script2, hmem, hmatch⟩ := scanTemplates_spec h
  simp only [mTemplates, mem_cons, Prod.mk.injEq, not_mem_nil, or_false] at hmem
  constructor
  · rintro rfl
    simp only [true_and, reduceCtorEq, false_and, or_false] at hmem
    exact solutions_pubkey (hmem ▸ hmatch)
  · rintro rfl
    simp only [true_and, reduceCtorEq, false_and, or_false, false_or] at hmem
    exact solutions_pubkeyhash (hmem ▸ hmatch)

end CScript

/-! ### Keys (pubkey.h, key.cpp, keystore.cpp) -/

namespace CPubKey

def getLen (chHeader : UInt8) : Nat :=
  if chHeader = 2 ∨ chHeader = 3 then 33
  else if chHeader = 4 ∨ chHeader = 6 ∨ chHeader = 7 then 65
  else 0

/- `CPubKey::size`; an invalid key has no bytes here, its header is 0xFF in the source. -/
def size (key : CPubKey) : Nat := (key.vch.head?.map getLen).getD 0

def isValid (key : CPubKey) : Bool := 0 < key.size

theorem getLen_le (chHeader : UInt8) : getLen chHeader ≤ 65 := by
  rw [getLen]
  split
  · omega
  · split
    · omega
    · omega

def ofBytes (vch : Bytes) : CPubKey :=
  match vch with
  | [] => invalid
  | chHeader :: rest =>
    if h : getLen chHeader = rest.length + 1 then
      ⟨chHeader :: rest, h.symm.trans_le (getLen_le chHeader)⟩
    else invalid

theorem isValid_ofBytes {vch : Bytes} (h : (ofBytes vch).isValid = true) :
    vch.length = 33 ∨ vch.length = 65 := by
  cases vch with
  | nil => cases h
  | cons chHeader rest =>
    rw [ofBytes] at h
    split at h
    · rename_i hlen
      rw [length_cons, ← hlen]
      rw [getLen] at hlen ⊢
      split
      · exact Or.inl rfl
      · rename_i hshort
        rw [if_neg hshort] at hlen
        split
        · exact Or.inr rfl
        · rename_i hlong
          rw [if_neg hlong] at hlen
          omega
    · cases h

end CPubKey

structure KeyEnv where
  CKey : Type
  Hash : Bytes → uint256
  getID : CPubKey → BitVec 160
  getPubKey : CKey → CPubKey
  sign : CKey → uint256 → Option Bytes
  ecdsaVerify : CPubKey → uint256 → Bytes → Bool

namespace KeyEnv
variable (env : KeyEnv)

/- `CPubKey::Verify`; no signature can be read from no bytes. -/
def verify (key : CPubKey) (hash : uint256) (vchSig : Bytes) : Bool :=
  key.isValid && !vchSig.isEmpty && env.ecdsaVerify key hash vchSig

def Agrees : Prop :=
  ∀ key hash vchSig, env.sign key hash = some vchSig →
    env.verify (env.getPubKey key) hash vchSig = true

/- `mapKeys`, the newest key first: `AddKey` files it under the id of its public key. -/
def getKey (keystore : List env.CKey) (keyID : BitVec 160) : Option env.CKey :=
  keystore.find? fun key => env.getID (env.getPubKey key) == keyID

theorem getID_of_getKey {keystore : List env.CKey} {keyID : BitVec 160} {key : env.CKey}
    (h : env.getKey keystore keyID = some key) :
    key ∈ keystore ∧ env.getID (env.getPubKey key) = keyID := by
  have hid := List.find?_some h
  exact ⟨mem_of_find?_eq_some h, beq_iff_eq.mp hid⟩

/-! ### Signing and checking (blocksignature.cpp) -/

def getKeyIDFromUTXO (txout : CTxOut) : Option (BitVec 160) :=
  match txout.scriptPubKey.solver with
  | some (.TX_PUBKEY, vch :: _) => some (env.getID (CPubKey.ofBytes vch))
  | some (.TX_PUBKEYHASH, vch :: _) => some (BitVec.ofNat 160 (leValue vch))
  | _ => none

end KeyEnv

namespace CBlock
variable (env : KeyEnv)

/- `vtx[1].vout[1]` -/
def stakedOutput (block : CBlock) : Option CTxOut := block.vtx[1]?.bind fun tx => tx.vout[1]?

/- The key id that `SignBlock` looks up. -/
def signerID (block : CBlock) : Option (BitVec 160) :=
  if block.isProofOfWork then
    block.vtx.head?.bind fun tx => tx.vout.findSome? env.getKeyIDFromUTXO
  else block.stakedOutput.bind env.getKeyIDFromUTXO

/- The signed block, or `none` for false. -/
def signBlock (keystore : List env.CKey) (block : CBlock) : Option CBlock := do
  let keyID ← block.signerID env
  let key ← env.getKey keystore keyID
  let vchBlockSig ← env.sign key (block.getHash env.Hash)
  return { block with vchBlockSig := vchBlockSig }

/- The public key of blocksignature.cpp:71-80; `none` where `Solver` fails. -/
def checkedKey (block : CBlock) : Option CPubKey :=
  block.stakedOutput.bind fun txout =>
    txout.scriptPubKey.solver.map fun (whichType, vSolutions) =>
      if whichType = .TX_PUBKEY ∨ whichType = .TX_PUBKEYHASH then
        CPubKey.ofBytes (vSolutions.headD [])
      else CPubKey.invalid

def checkBlockSignature (block : CBlock) : Bool :=
  if block.isProofOfWork then block.vchBlockSig.isEmpty
  else if block.vchBlockSig.isEmpty then false
  else
    match block.checkedKey with
    | none => false
    | some pubkey =>
      if !pubkey.isValid then false
      else env.verify pubkey (block.getHash env.Hash) block.vchBlockSig

def PaysToKey (block : CBlock) (vch : Bytes) : Prop :=
  ∃ txout, block.stakedOutput = some txout ∧ txout.scriptPubKey.solver = some (.TX_PUBKEY, [vch])

def KeyTold (keystore : List env.CKey) (block : CBlock) : Prop :=
  ∀ vch, block.PaysToKey vch → ∀ key ∈ keystore,
    env.getID (env.getPubKey key) = env.getID (CPubKey.ofBytes vch) →
      env.getPubKey key = CPubKey.ofBytes vch

variable {env} {block signed : CBlock} {keystore : List env.CKey}

theorem signBlock_cases (h : block.signBlock env keystore = some signed) :
    ∃ keyID key vchSig, block.signerID env = some keyID ∧ env.getKey keystore keyID = some key ∧
      env.sign key (block.getHash env.Hash) = some vchSig ∧
      signed = { block with vchBlockSig := vchSig } := by
  obtain ⟨keyID, hid, h⟩ := bind_eq_some_iff.mp h
  obtain ⟨key, hkey, h⟩ := bind_eq_some_iff.mp h
  obtain ⟨vchSig, hsig, h⟩ := bind_eq_some_iff.mp h
  exact ⟨keyID, key, vchSig, hid, hkey, hsig, (Option.some.inj h).symm⟩

theorem paysToKey_of_checkedKey {pubkey : CPubKey} (h : block.checkedKey = some pubkey)
    (hvalid : pubkey.isValid = true) :
    ∃ vch, block.PaysToKey vch ∧ pubkey = CPubKey.ofBytes vch := by
  obtain ⟨txout, hstaked, h⟩ := bind_eq_some_iff.mp h
  obtain ⟨⟨whichType, vSolutions⟩, hsolver, h⟩ := map_eq_some_iff.mp h
  dsimp only at h
  obtain ⟨hpubkey, hpubkeyhash⟩ := CScript.solver_spec hsolver
  split at h
  · rename_i htype
    cases htype with
    | inl hkey =>
      obtain ⟨vch, rfl⟩ := hpubkey hkey
      subst hkey
      exact ⟨vch, ⟨txout, hstaked, hsolver⟩, h.symm⟩
    | inr hhash =>
      obtain ⟨vch, rfl, hlength⟩ := hpubkeyhash hhash
      rw [← h] at hvalid
      have hlong := CPubKey.isValid_ofBytes hvalid
      rw [headD_cons, hlength] at hlong
      omega
  · rw [← h] at hvalid
    cases hvalid

variable {vch : Bytes}

theorem checkedKey_of_paysToKey (h : block.PaysToKey vch) :
    block.checkedKey = some (CPubKey.ofBytes vch) := by
  obtain ⟨txout, hstaked, hsolver⟩ := h
  rw [checkedKey, hstaked, bind_some, hsolver]
  rfl

theorem signerID_of_paysToKey (hstake : block.isProofOfStake = true) (h : block.PaysToKey vch) :
    block.signerID env = some (env.getID (CPubKey.ofBytes vch)) := by
  obtain ⟨txout, hstaked, hsolver⟩ := h
  rw [signerID, isProofOfWork, hstake, hstaked]
  simp only [Bool.not_true, Bool.false_eq_true, if_false, bind_some]
  rw [KeyEnv.getKeyIDFromUTXO, hsolver]

theorem verify_nonempty {key : CPubKey} {hash : uint256} {vchSig : Bytes}
    (h : env.verify key hash vchSig = true) : key.isValid = true ∧ vchSig.isEmpty = false := by
  simp only [KeyEnv.verify, Bool.and_eq_true, Bool.not_eq_true'] at h
  exact ⟨h.1.1, h.1.2⟩

theorem checkBlockSignature_iff (hstake : block.isProofOfStake = true) :
    block.checkBlockSignature env = true ↔ ∃ vch, block.PaysToKey vch ∧
        env.verify (CPubKey.ofBytes vch) (block.getHash env.Hash) block.vchBlockSig = true := by
  rw [checkBlockSignature, isProofOfWork, hstake]
  simp only [Bool.not_true, Bool.false_eq_true, if_false]
  constructor
  · intro h
    split at h
    · cases h
    · split at h
      · cases h
      · rename_i pubkey hkey
        split at h
        · cases h
        · rename_i hvalid
          obtain ⟨vch, hpays, rfl⟩ := paysToKey_of_checkedKey hkey (by simpa using hvalid)
          exact ⟨vch, hpays, h⟩
  · rintro ⟨vch, hpays, h⟩
    obtain ⟨hvalid, hsig⟩ := verify_nonempty h
    rw [hsig, checkedKey_of_paysToKey hpays]
    simp [hvalid, h]

/- Signed blocks pass if their output shows a public key that accepts the signature, and with
ids that tell the keys apart if it shows one at all. -/
theorem checkBlockSignature_signBlock_iff (hagrees : env.Agrees)
    (hstake : block.isProofOfStake = true) (hsign : block.signBlock env keystore = some signed) :
    (signed.checkBlockSignature env = true ↔ ∃ vch, block.PaysToKey vch ∧
        env.verify (CPubKey.ofBytes vch) (block.getHash env.Hash) signed.vchBlockSig = true) ∧
    (block.KeyTold env keystore →
      (signed.checkBlockSignature env = true ↔ ∃ vch, block.PaysToKey vch)) := by
  obtain ⟨keyID, key, vchSig, hid, hkey, hsig, rfl⟩ := signBlock_cases hsign
  have hcheck : checkBlockSignature env { block with vchBlockSig := vchSig } = true ↔ _ :=
    checkBlockSignature_iff hstake
  refine ⟨hcheck, fun htold => hcheck.trans ⟨?_, ?_⟩⟩
  · rintro ⟨vch, hpays, -⟩
    exact ⟨vch, hpays⟩
  · rintro ⟨vch, hpays⟩
    -- the key that signed is filed under the id of the public key in the script
    rw [signerID_of_paysToKey hstake hpays] at hid
    obtain ⟨hmem, hfiled⟩ := env.getID_of_getKey hkey
    have hpubkey := htold vch hpays key hmem (hfiled.trans (Option.some.inj hid).symm)
    exact ⟨vch, hpays, hpubkey ▸ hagrees key _ vchSig hsig⟩

def soleKey : CPubKey := ⟨2 :: List.replicate 32 0, by decide⟩

def soleEnv : KeyEnv where
  CKey := Unit
  Hash := fun _ => 0
  getID := fun key => BitVec.ofNat 160 (leValue key.vch)
  getPubKey := fun _ => soleKey
  sign := fun _ _ => some [0x30]
  ecdsaVerify := fun _ _ vchSig => vchSig == [0x30]

theorem soleEnv_agrees : soleEnv.Agrees := by
  intro key hash vchSig h
  obtain rfl := Option.some.inj h
  rfl

def stakeOf (script : CScript) : CBlock where
  hashPrevBlock := 0
  hashMerkleRoot := 0
  nTime := 0
  nBits := 0
  nNonce := 0
  vtx := [⟨1, 1, [⟨.null, [], 0⟩], [⟨0, [], -10⟩], 0⟩,
    ⟨2, 1, [⟨⟨7, 0⟩, [], 0⟩], [⟨0, [], -10⟩, ⟨1, script, -10⟩], 0⟩]

def keyScript : CScript := 33 :: (soleKey.vch ++ [OP_CHECKSIG])

def hashScript : CScript :=
  [OP_DUP, OP_HASH160, 20] ++ (leBytes 20 (leValue soleKey.vch) ++ [OP_EQUALVERIFY, OP_CHECKSIG])

theorem stakeOf_keyScript_passes : (∃ vch, (stakeOf keyScript).PaysToKey vch) ∧
      checkBlockSignature soleEnv { stakeOf keyScript with vchBlockSig := [0x30] } = true := by
  have hpays : (stakeOf keyScript).PaysToKey soleKey.vch := ⟨_, rfl, by decide +kernel⟩
  have htold : (stakeOf keyScript).KeyTold soleEnv [()] := by
    intro vch h key hkey hid
    obtain ⟨txout, hstaked, hsolver⟩ := hpays
    obtain ⟨txout', hstaked', hsolver'⟩ := h
    rw [hstaked, Option.some.injEq] at hstaked'
    rw [← hstaked', hsolver] at hsolver'
    cases hsolver'
    change soleKey = CPubKey.ofBytes soleKey.vch
    decide
  exact ⟨⟨_, hpays⟩, ((checkBlockSignature_signBlock_iff soleEnv_agrees (by decide)
    (by decide +kernel)).2 htold).mpr ⟨_, hpays⟩⟩

/- An output to the hash of the key in the wallet: the block is signed and not accepted. -/
theorem stakeOf_hashScript_fails : soleEnv.Agrees ∧ (stakeOf hashScript).isProofOfStake = true ∧
      signBlock soleEnv [()] (stakeOf hashScript) =
        some { stakeOf hashScript with vchBlockSig := [0x30] } ∧
      checkBlockSignature soleEnv { stakeOf hashScript with vchBlockSig := [0x30] } = false :=
  ⟨soleEnv_agrees, by decide, by decide +kernel, by decide +kernel⟩

end CBlock

end Alqo
