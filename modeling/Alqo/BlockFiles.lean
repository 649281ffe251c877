import Alqo.BlockTree
import Alqo.Lib.Bump

/-!
# Positions in block and undo files (main.h, main.cpp)

Whether there is space on the disk comes with each call; without it the counter has moved all the
same.
-/

namespace Alqo
open Lib.Bump Function List

def MAX_BLOCKFILE_SIZE : Nat := 0x8000000
def BLOCKFILE_CHUNK_SIZE : Nat := 0x1000000
def UNDOFILE_CHUNK_SIZE : Nat := 0x100000

structure CBlockFileInfo where
  nBlocks : Nat := 0
  nSize : Nat := 0
  nUndoSize : Nat := 0
  nHeightFirst : Nat := 0
  nHeightLast : Nat := 0
  nTimeFirst : Nat := 0
  nTimeLast : Nat := 0
deriving DecidableEq

def CBlockFileInfo.addBlock (info : CBlockFileInfo) (nHeightIn nTimeIn : Nat) : CBlockFileInfo :=
  { info with
    nHeightFirst :=
      if info.nBlocks = 0 ∨ info.nHeightFirst > nHeightIn then nHeightIn else info.nHeightFirst
    nTimeFirst := if info.nBlocks = 0 ∨ info.nTimeFirst > nTimeIn then nTimeIn else info.nTimeFirst
    nBlocks := (info.nBlocks + 1) % 2 ^ 32
    nHeightLast := max info.nHeightLast nHeightIn
    nTimeLast := max info.nTimeLast nTimeIn }

structure BlockFiles where
  vinfoBlockFile : List CBlockFileInfo := []
  nLastBlockFile : Nat := 0

namespace BlockFiles

/- `vinfoBlockFile.resize(nFile + 1)` if it is shorter -/
def grow (v : List CBlockFileInfo) (nFile : Nat) : List CBlockFileInfo :=
  v ++ List.replicate (nFile + 1 - v.length) ({} : CBlockFileInfo)

def counter (field : CBlockFileInfo → Nat) (v : List CBlockFileInfo) (nFile : Nat) : Nat :=
  (v[nFile]?.map field).getD 0

def sizeOf : List CBlockFileInfo → Nat → Nat := counter CBlockFileInfo.nSize
def undoSizeOf : List CBlockFileInfo → Nat → Nat := counter CBlockFileInfo.nUndoSize

/- The loop over full files. -/
def nextFile (nAddSize : Nat) :
    (turns : Nat) → List CBlockFileInfo → (nFile : Nat) → Option (List CBlockFileInfo × Nat)
  | 0, v, nFile =>
    if (sizeOf v nFile + nAddSize) % 2 ^ 32 ≥ MAX_BLOCKFILE_SIZE then none else some (v, nFile)
  | turns + 1, v, nFile =>
    if (sizeOf v nFile + nAddSize) % 2 ^ 32 ≥ MAX_BLOCKFILE_SIZE then
      nextFile nAddSize turns (grow v (nFile + 1)) (nFile + 1)
    else some (v, nFile)

def newChunk (chunk nPos nSize : Nat) : Bool :=
  decide ((nPos + chunk - 1) % 2 ^ 32 / chunk < (nSize + chunk - 1) % 2 ^ 32 / chunk)

/- `fKnown` is a position that is given. The position is `none` where the
function returns false. -/
def findBlockPos (s : BlockFiles) (known : Option CDiskBlockPos) (nAddSize nHeight nTime : Nat)
    (fDiskSpace : Bool) : Option (BlockFiles × Option CDiskBlockPos) :=
  match known with
  | some pos =>
    some ({ vinfoBlockFile := (grow s.vinfoBlockFile pos.nFile).modify pos.nFile fun info =>
              { info.addBlock nHeight nTime with
                nSize := max ((pos.nPos + nAddSize) % 2 ^ 32) info.nSize }
            nLastBlockFile := pos.nFile }, some pos)
  | none => do
    let (v, nFile) ← nextFile nAddSize (s.vinfoBlockFile.length + 1)
      (grow s.vinfoBlockFile s.nLastBlockFile) s.nLastBlockFile
    let nPos := sizeOf v nFile
    let nSize := (nPos + nAddSize) % 2 ^ 32
    return ({ vinfoBlockFile := v.modify nFile fun info =>
                { info.addBlock nHeight nTime with nSize := nSize }
              nLastBlockFile := nFile },
      if newChunk BLOCKFILE_CHUNK_SIZE nPos nSize && !fDiskSpace then none else some ⟨nFile, nPos⟩)

/- `none` if there is no such file -/
def findUndoPos (s : BlockFiles) (nFile nAddSize : Nat) (fDiskSpace : Bool) :
    Option (BlockFiles × Option CDiskBlockPos) :=
  if nFile < s.vinfoBlockFile.length then
    let nPos := undoSizeOf s.vinfoBlockFile nFile
    let nNewSize := (nPos + nAddSize) % 2 ^ 32
    some ({ s with vinfoBlockFile := s.vinfoBlockFile.modify nFile fun info =>
              { info with nUndoSize := nNewSize } },
      if newChunk UNDOFILE_CHUNK_SIZE nPos nNewSize && !fDiskSpace then none else some ⟨nFile, nPos⟩)
  else none

end BlockFiles

inductive FileEvent where
  | block (nAddSize nHeight nTime : Nat) (fDiskSpace : Bool)
  | undo (nFile nAddSize : Nat) (fDiskSpace : Bool)

structure FileLedger where
  files : BlockFiles
  blocks : List (Range Nat) := []
  undos : List (Range Nat) := []

namespace FileLedger

def record (l : List (Range Nat)) (nAddSize : Nat) : Option CDiskBlockPos → List (Range Nat)
  | none => l
  | some pos => l ++ [⟨pos.nFile, pos.nPos, nAddSize⟩]

def step (s : FileLedger) : FileEvent → Option FileLedger
  | .block nAddSize nHeight nTime fDiskSpace => do
    let (files, pos) ← s.files.findBlockPos none nAddSize nHeight nTime fDiskSpace
    return { s with files := files, blocks := record s.blocks nAddSize pos }
  | .undo nFile nAddSize fDiskSpace => do
    let (files, pos) ← s.files.findUndoPos nFile nAddSize fDiskSpace
    return { s with files := files, undos := record s.undos nAddSize pos }

def run (s : FileLedger) : List FileEvent → Option FileLedger
  | [] => some s
  | e :: rest => (s.step e).bind fun s => s.run rest

end FileLedger

namespace BlockFiles

variable {field : CBlockFileInfo → Nat} {v : List CBlockFileInfo} {nFile nAddSize : Nat}
  {f : CBlockFileInfo → CBlockFileInfo}

theorem length_grow (v : List CBlockFileInfo) (nFile : Nat) :
    (grow v nFile).length = max v.length (nFile + 1) := by
  rw [grow, length_append, length_replicate]
  omega

theorem counter_of_length_le {i : Nat} (h : v.length ≤ i) : counter field v i = 0 := by
  rw [counter, getElem?_eq_none h]
  rfl

theorem counter_grow (hfield : field {} = 0) (v : List CBlockFileInfo) (nFile : Nat) :
    counter field (grow v nFile) = counter field v := by
  funext i
  by_cases hi : i < v.length
  · rw [counter, counter, grow, getElem?_append_left hi]
  · rw [counter_of_length_le (Nat.le_of_not_lt hi), counter, grow,
      getElem?_append_right (Nat.le_of_not_lt hi), getElem?_replicate]
    split_ifs
    · exact hfield
    · rfl

theorem counter_modify_at (f : CBlockFileInfo → CBlockFileInfo) (i : Nat) :
    counter field (v.modify nFile f) i =
      (v[i]?.map fun info => field (if nFile = i then f info else info)).getD 0 := by
  rw [counter, getElem?_modify]
  cases v[i]? with
  | none => rfl
  | some info => rfl

theorem counter_modify_of_eq (hf : ∀ info, field (f info) = field info) :
    counter field (v.modify nFile f) = counter field v := by
  funext i
  rw [counter_modify_at]
  by_cases hi : nFile = i
  · simp only [if_pos hi, hf, counter]
  · simp only [if_neg hi, counter]

theorem counter_modify {n : Nat} (hlt : nFile < v.length) (hf : ∀ info, field (f info) = n) :
    counter field (v.modify nFile f) = update (counter field v) nFile n := by
  funext i
  rw [counter_modify_at]
  by_cases hi : nFile = i
  · rw [← hi, update_self, getElem?_eq_getElem hlt, Option.map_some, if_pos rfl, hf]
    rfl
  · rw [update_of_ne (Ne.symm hi)]
    simp only [if_neg hi, counter]

theorem nextFile_spec (turns last : Nat) (hadd : nAddSize < MAX_BLOCKFILE_SIZE)
    (hsizes : ∀ f, sizeOf v f + MAX_BLOCKFILE_SIZE ≤ 2 ^ 32) (hlt : nFile < v.length)
    (hempty : ∀ f, last ≤ f → sizeOf v f = 0) (hturns : last ≤ nFile + turns) :
    ∃ v' file, nextFile nAddSize turns v nFile = some (v', file) ∧ file < v'.length ∧
      sizeOf v' = sizeOf v ∧ undoSizeOf v' = undoSizeOf v ∧ v.length ≤ v'.length ∧
      sizeOf v file + nAddSize < MAX_BLOCKFILE_SIZE := by
  have hmax : MAX_BLOCKFILE_SIZE = 0x8000000 := rfl
  induction turns generalizing v nFile with
  | zero =>
    have hzero := hempty nFile (by omega)
    refine ⟨v, nFile, ?_, hlt, rfl, rfl, le_rfl, by omega⟩
    rw [nextFile, if_neg (by omega)]
  | succ turns ih =>
    have hsize := hsizes nFile
    rw [nextFile]
    by_cases hfull : (sizeOf v nFile + nAddSize) % 2 ^ 32 ≥ MAX_BLOCKFILE_SIZE
    · have hgrow : sizeOf (grow v (nFile + 1)) = sizeOf v := counter_grow rfl v _
      have hundo : undoSizeOf (grow v (nFile + 1)) = undoSizeOf v := counter_grow rfl v _
      have hlength := length_grow v (nFile + 1)
      rw [if_pos hfull]
      obtain ⟨v', file, hnext, hin, hsame, hsame', hle, hroom⟩ := ih
        (by rw [hgrow]; exact hsizes) (show nFile + 1 < (grow v (nFile + 1)).length by omega)
        (by rw [hgrow]; exact hempty) (by omega)
      rw [hgrow] at hsame hroom
      rw [hundo] at hsame'
      exact ⟨v', file, hnext, hin, hsame, hsame', by omega, hroom⟩
    · rw [if_neg hfull]
      exact ⟨v, nFile, rfl, hlt, rfl, rfl, le_rfl, by omega⟩

structure BlockPlaced (s s' : BlockFiles) (nAddSize : Nat) (pos : Option CDiskBlockPos) : Prop where
  file : ∃ nFile, sizeOf s.vinfoBlockFile nFile + nAddSize < MAX_BLOCKFILE_SIZE ∧
    sizeOf s'.vinfoBlockFile = update (sizeOf s.vinfoBlockFile) nFile
      (sizeOf s.vinfoBlockFile nFile + nAddSize) ∧
    (pos = none ∨ pos = some ⟨nFile, sizeOf s.vinfoBlockFile nFile⟩)
  undo : undoSizeOf s'.vinfoBlockFile = undoSizeOf s.vinfoBlockFile
  length : s.vinfoBlockFile.length ≤ s'.vinfoBlockFile.length

theorem findBlockPos_spec (s : BlockFiles) (nAddSize nHeight nTime : Nat) (fDiskSpace : Bool)
    (hadd : nAddSize < MAX_BLOCKFILE_SIZE)
    (hsizes : ∀ f, sizeOf s.vinfoBlockFile f + MAX_BLOCKFILE_SIZE ≤ 2 ^ 32) :
    ∃ s' pos, s.findBlockPos none nAddSize nHeight nTime fDiskSpace = some (s', pos) ∧
      BlockPlaced s s' nAddSize pos := by
  have hmax : MAX_BLOCKFILE_SIZE = 0x8000000 := rfl
  have hgrow : sizeOf (grow s.vinfoBlockFile s.nLastBlockFile) = sizeOf s.vinfoBlockFile :=
    counter_grow rfl _ _
  have hundo : undoSizeOf (grow s.vinfoBlockFile s.nLastBlockFile) = undoSizeOf s.vinfoBlockFile :=
    counter_grow rfl _ _
  have hlength := length_grow s.vinfoBlockFile s.nLastBlockFile
  obtain ⟨v, nFile, hnext, hin, hsame, hsame', hle, hroom⟩ :=
    nextFile_spec (s.vinfoBlockFile.length + 1) s.vinfoBlockFile.length hadd
      (by rw [hgrow]; exact hsizes)
      (show s.nLastBlockFile < (grow s.vinfoBlockFile s.nLastBlockFile).length by omega)
      (by rw [hgrow]; exact fun f hf => counter_of_length_le hf) (by omega)
  rw [hgrow] at hsame hroom
  rw [hundo] at hsame'
  rw [findBlockPos, hnext]
  have hmod : (sizeOf v nFile + nAddSize) % 2 ^ 32 = sizeOf v nFile + nAddSize := by
    rw [hsame]
    exact Nat.mod_eq_of_lt (by omega)
  refine ⟨_, _, rfl, ⟨nFile, hroom, ?_, ?_⟩, ?_, ?_⟩
  · rw [← hsame]
    exact counter_modify hin fun info => hmod
  · rw [hsame]
    split_ifs
    · exact .inl rfl
    · exact .inr rfl
  · rw [← hsame']
    exact counter_modify_of_eq fun info => rfl
  · show _ ≤ (v.modify nFile _).length
    rw [length_modify]
    omega

structure UndoPlaced (s s' : BlockFiles) (nFile nAddSize : Nat) (pos : Option CDiskBlockPos) : Prop where
  size : sizeOf s'.vinfoBlockFile = sizeOf s.vinfoBlockFile
  undo : undoSizeOf s'.vinfoBlockFile = update (undoSizeOf s.vinfoBlockFile) nFile
    (undoSizeOf s.vinfoBlockFile nFile + nAddSize)
  place : pos = none ∨ pos = some ⟨nFile, undoSizeOf s.vinfoBlockFile nFile⟩
  length : s'.vinfoBlockFile.length = s.vinfoBlockFile.length

theorem findUndoPos_spec (s : BlockFiles) (nFile nAddSize : Nat) (fDiskSpace : Bool)
    (hfile : nFile < s.vinfoBlockFile.length)
    (hadd : undoSizeOf s.vinfoBlockFile nFile + nAddSize < 2 ^ 32) :
    ∃ s' pos, s.findUndoPos nFile nAddSize fDiskSpace = some (s', pos) ∧
      UndoPlaced s s' nFile nAddSize pos := by
  rw [findUndoPos, if_pos hfile]
  refine ⟨_, _, rfl, ?_, ?_, ?_, length_modify _ _ _⟩
  · exact counter_modify_of_eq fun info => rfl
  · exact counter_modify hfile fun info => Nat.mod_eq_of_lt hadd
  · split_ifs
    · exact .inl rfl
    · exact .inr rfl

end BlockFiles

namespace FileLedger

def undoTotal (nFile : Nat) : List FileEvent → Nat
  | [] => 0
  | .block .. :: rest => undoTotal nFile rest
  | .undo nFile' nAddSize _ :: rest => (if nFile' = nFile then nAddSize else 0) + undoTotal nFile rest

def undoInFile (s : FileLedger) : FileEvent → Bool
  | .block .. => true
  | .undo nFile _ _ => decide (nFile < s.files.vinfoBlockFile.length)

def undoInFiles (s : FileLedger) : List FileEvent → Bool
  | [] => true
  | e :: rest => s.undoInFile e && ((s.step e).map fun s => s.undoInFiles rest).getD true

def SmallBlock : FileEvent → Prop
  | .block nAddSize .. => nAddSize < MAX_BLOCKFILE_SIZE
  | .undo .. => True

structure Sound (s : FileLedger) : Prop where
  sizes : ∀ f, BlockFiles.sizeOf s.files.vinfoBlockFile f + MAX_BLOCKFILE_SIZE ≤ 2 ^ 32
  ends : ∀ r ∈ s.blocks, r.start + r.size < MAX_BLOCKFILE_SIZE
  blocks : Handed (BlockFiles.sizeOf s.files.vinfoBlockFile) s.blocks
  undos : Handed (BlockFiles.undoSizeOf s.files.vinfoBlockFile) s.undos

variable {s : FileLedger} {used : Nat → Nat} {f nAddSize : Nat}

theorem le_update {n : Nat} (h : used f ≤ n) (g : Nat) : used g ≤ update used f n g := by
  by_cases hg : g = f
  · rw [hg, update_self]
    exact h
  · rw [update_of_ne hg]

theorem handed_record {l : List (Range Nat)} {pos : Option CDiskBlockPos} (h : Handed used l)
    (hpos : pos = none ∨ pos = some ⟨f, used f⟩) :
    Handed (update used f (used f + nAddSize)) (record l nAddSize pos) := by
  have hle := le_update (show used f ≤ used f + nAddSize by omega)
  rcases hpos with rfl | rfl
  · exact h.mono hle
  · refine h.push hle ?_
    rw [update_self]

theorem Sound.block (h : s.Sound) (nHeight nTime : Nat) (fDiskSpace : Bool)
    (hadd : nAddSize < MAX_BLOCKFILE_SIZE) :
    ∃ s', s.step (.block nAddSize nHeight nTime fDiskSpace) = some s' ∧ s'.Sound ∧
      BlockFiles.undoSizeOf s'.files.vinfoBlockFile =
        BlockFiles.undoSizeOf s.files.vinfoBlockFile := by
  obtain ⟨files, pos, hfind, hplaced⟩ :=
    s.files.findBlockPos_spec nAddSize nHeight nTime fDiskSpace hadd h.sizes
  obtain ⟨nFile, hroom, hsize, hpos⟩ := hplaced.file
  refine ⟨{ s with files := files, blocks := record s.blocks nAddSize pos }, ?_, ?_, hplaced.undo⟩
  · rw [step, hfind]
    rfl
  · refine ⟨fun f => ?_, fun r hr => ?_, ?_, ?_⟩
    · have hmax : MAX_BLOCKFILE_SIZE = 0x8000000 := rfl
      rw [hsize]
      by_cases hf : f = nFile
      · rw [hf, update_self]
        omega
      · rw [update_of_ne hf]
        exact h.sizes f
    · rcases hpos with rfl | rfl
      · exact h.ends r hr
      · rcases mem_append.mp hr with hr | hr
        · exact h.ends r hr
        · rw [mem_singleton.mp hr]
          exact hroom
    · show Handed (BlockFiles.sizeOf files.vinfoBlockFile) _
      rw [hsize]
      exact handed_record h.blocks hpos
    · show Handed (BlockFiles.undoSizeOf files.vinfoBlockFile) _
      rw [hplaced.undo]
      exact h.undos

theorem Sound.undo (h : s.Sound) (nFile nAddSize : Nat) (fDiskSpace : Bool)
    (hfile : nFile < s.files.vinfoBlockFile.length)
    (hadd : BlockFiles.undoSizeOf s.files.vinfoBlockFile nFile + nAddSize < 2 ^ 32) :
    ∃ s', s.step (.undo nFile nAddSize fDiskSpace) = some s' ∧ s'.Sound ∧
      BlockFiles.undoSizeOf s'.files.vinfoBlockFile =
        update (BlockFiles.undoSizeOf s.files.vinfoBlockFile) nFile
          (BlockFiles.undoSizeOf s.files.vinfoBlockFile nFile + nAddSize) := by
  obtain ⟨files, pos, hfind, hplaced⟩ := s.files.findUndoPos_spec nFile nAddSize fDiskSpace hfile hadd
  refine ⟨{ s with files := files, undos := record s.undos nAddSize pos }, ?_, ?_, hplaced.undo⟩
  · rw [step, hfind]
    rfl
  · refine ⟨?_, h.ends, ?_, ?_⟩
    · show ∀ f, BlockFiles.sizeOf files.vinfoBlockFile f + _ ≤ _
      rw [hplaced.size]
      exact h.sizes
    · show Handed (BlockFiles.sizeOf files.vinfoBlockFile) _
      rw [hplaced.size]
      exact h.blocks
    · show Handed (BlockFiles.undoSizeOf files.vinfoBlockFile) _
      rw [hplaced.undo]
      exact handed_record h.undos hplaced.place

theorem Sound.run (h : s.Sound) {events : List FileEvent} (hsmall : ∀ e ∈ events, SmallBlock e)
    (htotal : ∀ f, BlockFiles.undoSizeOf s.files.vinfoBlockFile f + undoTotal f events < 2 ^ 32)
    (hfiles : s.undoInFiles events = true) : ∃ s', s.run events = some s' ∧ s'.Sound := by
  induction events generalizing s with
  | nil => exact ⟨s, rfl, h⟩
  | cons e rest ih =>
    obtain ⟨hfirst, hrest⟩ := forall_mem_cons.mp hsmall
    rw [undoInFiles, Bool.and_eq_true] at hfiles
    obtain ⟨hmeets, hlater⟩ := hfiles
    cases e with
    | block nAddSize nHeight nTime fDiskSpace =>
      obtain ⟨mid, hstep, hmid, hundo⟩ := h.block nHeight nTime fDiskSpace hfirst
      rw [hstep] at hlater
      obtain ⟨s', hrun, hs'⟩ := ih hmid hrest (by rw [hundo]; exact htotal) hlater
      refine ⟨s', ?_, hs'⟩
      rw [FileLedger.run, hstep]
      exact hrun
    | undo nFile nAddSize fDiskSpace =>
      have hnow := htotal nFile
      rw [undoTotal, if_pos rfl] at hnow
      obtain ⟨mid, hstep, hmid, hundo⟩ := h.undo nFile nAddSize fDiskSpace
        (of_decide_eq_true hmeets) (by omega)
      rw [hstep] at hlater
      have htotal' : ∀ f, BlockFiles.undoSizeOf mid.files.vinfoBlockFile f + undoTotal f rest <
          2 ^ 32 := by
        intro f
        rw [hundo]
        by_cases hf : f = nFile
        · rw [hf, update_self]
          omega
        · have hother := htotal f
          rw [undoTotal, if_neg (Ne.symm hf)] at hother
          rw [update_of_ne hf]
          omega
      obtain ⟨s', hrun, hs'⟩ := ih hmid hrest htotal' hlater
      refine ⟨s', ?_, hs'⟩
      rw [FileLedger.run, hstep]
      exact hrun

/- From files that were written before, all ranges handed out are apart, and blocks end in time. -/
theorem ranges_apart (files : BlockFiles)
    (hstart : ∀ f, BlockFiles.sizeOf files.vinfoBlockFile f + MAX_BLOCKFILE_SIZE ≤ 2 ^ 32)
    (events : List FileEvent) (hsmall : ∀ e ∈ events, SmallBlock e)
    (htotal : ∀ f, BlockFiles.undoSizeOf files.vinfoBlockFile f + undoTotal f events < 2 ^ 32)
    (hfiles : ({ files := files } : FileLedger).undoInFiles events = true) :
    ∃ s, ({ files := files } : FileLedger).run events = some s ∧
      s.blocks.Pairwise Apart ∧ s.undos.Pairwise Apart ∧
      ∀ r ∈ s.blocks, r.start + r.size < MAX_BLOCKFILE_SIZE := by
  obtain ⟨s, hrun, hsound⟩ := Sound.run (s := { files := files })
    ⟨hstart, fun r hr => (by cases hr), handed_nil _, handed_nil _⟩ hsmall htotal hfiles
  exact ⟨s, hrun, hsound.blocks.apart, hsound.undos.apart, hsound.ends⟩

def threeBlocks : List FileEvent :=
  [.block 0x7000000 1 10 true, .undo 0 100 true, .block 0x1000 2 20 true, .block 0x6000000 3 30 true,
    .undo 0 50 false]

theorem threeBlocks_apart :
    ∃ s, ({ files := {} } : FileLedger).run threeBlocks = some s ∧ s.blocks.length = 3 ∧
      s.blocks.Pairwise Apart ∧ s.undos.Pairwise Apart ∧
      ∀ r ∈ s.blocks, r.start + r.size < MAX_BLOCKFILE_SIZE := by
  have hsmall : ∀ e ∈ threeBlocks, SmallBlock e := by
    simp only [threeBlocks, forall_mem_cons]
    refine ⟨?_, trivial, ?_, ?_, trivial, fun e he => by cases he⟩
    · show (0x7000000 : Nat) < 0x8000000
      decide
    · show (0x1000 : Nat) < 0x8000000
      decide
    · show (0x6000000 : Nat) < 0x8000000
      decide
  obtain ⟨s, hrun, happart, hundos, hends⟩ := ranges_apart {} (fun f => by
      show 0 + 0x8000000 ≤ 2 ^ 32
      decide) threeBlocks hsmall
    (fun f => by
      show 0 + undoTotal f threeBlocks < _
      simp only [threeBlocks, undoTotal]
      split_ifs <;> omega)
    (by decide +kernel)
  refine ⟨s, hrun, ?_, happart, hundos, hends⟩
  have hblocks : ((({ files := {} } : FileLedger).run threeBlocks).map fun s => s.blocks.length) = some 3 := by
    decide +kernel
  rw [hrun] at hblocks
  exact Option.some.inj hblocks

end FileLedger

end Alqo
