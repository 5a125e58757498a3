/- The position of an open file along any sequence of vfs_seek and vfs_read. -/
import SnapOS.FileBytes
import SnapOS.Lib.Run
import SnapOS.Resolve

namespace SnapOS.Ext2Io
open SnapOS.Lib SnapOS.Fs

def seekSet : Int := 0
def seekCur : Int := 1

def toSize (n : Int) : Nat := (n % (word64 : Int)).toNat

/-- The target of a seek. The position is unsigned, so the sum is too. -/
def seekTarget (f : File) (offset whence : Int) : Option Int :=
  if whence = seekSet then some offset
  else if whence = seekCur then some (toSsize (toSize (f.pos + offset)))
  else none

def vfsSeek (f : File) (offset whence : Int) : Int × File :=
  if !isReg f.inode.mode then (-eInval, f)
  else
    match seekTarget f offset whence with
    | none => (-eInval, f)
    | some newPos =>
        if newPos < 0 then (-eInval, f)
        else
          let newPos := if newPos > toSsize f.inode.size then toSsize f.inode.size else newPos
          (newPos, { f with pos := toSize newPos })

def openedFile (inode : Inode) : File := ⟨inode, 0, 1⟩

inductive FileOp where
  | seek (offset whence : Int)
  | read (buf : Memory) (count : Nat)

def fileCall (env : Env) (sb : Superblock) (f : File) : FileOp → Steps Io (Int × File)
  | .seek offset whence => pure (vfsSeek f offset whence)
  | .read buf count => do
      let (ret, _, f) ← vfsRead env sb f buf count
      pure (ret, f)

/-- A call that faults has no next state. -/
def fileStep (env : Env) (sb : Superblock) (s : File × Io) (op : FileOp) : Option (File × Io) :=
  match fileCall env sb s.1 op s.2 with
  | .ok (_, f) io => some (f, io)
  | .error _ _ => none

def FileOp.position (before : Nat) (ret : Int) : FileOp → Int
  | .seek _ _ => ret
  | .read _ _ => before + ret

/-- The position after a call that returned `ret`. -/
structure Positioned (before after : Nat) (ret : Int) (op : FileOp) : Prop where
  failed : ret < 0 → after = before
  done : 0 ≤ ret → (after : Int) = op.position before ret

theorem Positioned.of_failed {pos : Nat} {ret : Int} {op : FileOp} (failed : ret < 0) : Positioned pos pos ret op :=
  ⟨fun _ => rfl, fun fine => absurd failed (Int.not_lt.mpr fine)⟩

/-- If the call returns, its result tells the position. -/
def Reported (env : Env) (sb : Superblock) (s : File × Io) (op : FileOp) : Prop :=
  ∀ ret f io, fileCall env sb s.1 op s.2 = .ok (ret, f) io → Positioned s.1.pos f.pos ret op

def PosValid (s : File × Io) : Prop := s.1.pos ≤ s.1.inode.size

section Reads

variable {env : Env} {sb : Superblock} {inode : Inode} {io io' : Io}

theorem ext2InitSingly_asRead {r : Int × Inode} (done : ext2InitSingly env sb inode io = .ok r io') :
    r.2.asRead = inode.asRead := by
  rw [ext2InitSingly] at done
  split_ifs at done with cached
  · cases done
    rfl
  · obtain ⟨_ | buf, io₁, _, done⟩ := Steps.bind_eq_ok.mp done
    · cases done
      rfl
    · obtain ⟨⟨status, data⟩, io₂, _, done⟩ := Steps.bind_eq_ok.mp done
      dsimp only at done
      split_ifs at done with failed
      · obtain ⟨_, io₃, _, done⟩ := Steps.bind_eq_ok.mp done
        cases done
        rfl
      · cases done
        rfl

theorem fileBlockLba_asRead {block : Nat} {r : Inode × Nat} (done : fileBlockLba env sb inode block io = .ok r io') :
    r.1.asRead = inode.asRead := by
  rw [fileBlockLba] at done
  split_ifs at done with direct indirect
  · cases done
    rfl
  · obtain ⟨⟨status, found⟩, io₁, init, done⟩ := Steps.bind_eq_ok.mp done
    obtain ⟨entry, io₂, _, done⟩ := Steps.bind_eq_ok.mp done
    cases done
    exact ext2InitSingly_asRead init
  · cases done
    rfl

theorem copyBlock_inode {offset startBlock block lba : Nat} {t t' : Transfer}
    (done : copyBlock sb offset startBlock block lba t io = .ok t' io') : t'.inode = t.inode := by
  rw [copyBlock] at done
  obtain ⟨first, io₁, _, done⟩ := Steps.bind_eq_ok.mp done
  obtain ⟨src, io₂, _, done⟩ := Steps.bind_eq_ok.mp done
  cases done
  rfl

theorem readFileLoop_asRead {offset startBlock left i : Nat} {t : Transfer} {r : Int × Transfer}
    (done : readFileLoop env sb offset startBlock left i t io = .ok r io') : r.2.inode.asRead = t.inode.asRead := by
  induction left generalizing i t io with
  | zero =>
      cases done
      rfl
  | succ left ih =>
      rw [readFileLoop] at done
      obtain ⟨⟨inode, lba⟩, io₁, found, done⟩ := Steps.bind_eq_ok.mp done
      obtain ⟨⟨status, data⟩, io₂, _, done⟩ := Steps.bind_eq_ok.mp done
      dsimp only at done
      split_ifs at done with failed
      · cases done
        exact fileBlockLba_asRead found
      · obtain ⟨t₁, io₃, copied, done⟩ := Steps.bind_eq_ok.mp done
        rw [ih done, copyBlock_inode copied]
        exact fileBlockLba_asRead found

theorem ext2ReadFile_position {buf : Memory} {count offset : Nat} {r : ReadResult} (limit : inode.size < 2 ^ 63)
    (small : count ≤ ssizeMax) (valid : offset ≤ inode.size)
    (done : ext2ReadFile env sb inode buf count offset io = .ok r io') :
    r.inode.asRead = inode.asRead ∧ r.offset ≤ inode.size ∧ Positioned offset r.offset r.ret (.read buf count) := by
  have still : Positioned offset offset 0 (.read buf count) := ⟨fun _ => rfl, fun _ => (Int.add_zero _).symm⟩
  rw [ext2ReadFile] at done
  by_cases none : count = 0
  · rw [if_pos none] at done
    cases done
    exact ⟨rfl, valid, still⟩
  by_cases outside : offset ≥ inode.size
  · rw [if_neg none, if_pos outside] at done
    cases done
    exact ⟨rfl, valid, still⟩
  rw [if_neg none, if_neg outside] at done
  obtain ⟨first, io₁, _, done⟩ := Steps.bind_eq_ok.mp done
  obtain ⟨last, io₂, _, done⟩ := Steps.bind_eq_ok.mp done
  obtain ⟨_ | block, io₃, _, done⟩ := Steps.bind_eq_ok.mp done
  · cases done
    exact ⟨rfl, valid, .of_failed (show -eNoMem < 0 by decide)⟩
  obtain ⟨⟨status, t⟩, io₄, loop, done⟩ := Steps.bind_eq_ok.mp done
  obtain ⟨_, io₅, _, done⟩ := Steps.bind_eq_ok.mp done
  have same : t.inode.asRead = inode.asRead := readFileLoop_asRead loop
  by_cases failed : status < 0
  · rw [if_pos failed] at done
    cases done
    exact ⟨same, valid, .of_failed failed⟩
  rw [if_neg failed] at done
  cases done
  have cut : readCount inode.size count offset = bytesLeft inode.size count offset :=
    readCount_eq (by omega) (by simp only [ssizeMax, word64] at *; omega)
  have fits : offset + bytesLeft inode.size count offset ≤ inode.size := by
    have := Nat.min_le_right count (inode.size - offset)
    rw [bytesLeft]
    omega
  change t.inode.asRead = inode.asRead ∧ (offset + readCount inode.size count offset) % word64 ≤ inode.size ∧
    Positioned offset ((offset + readCount inode.size count offset) % word64)
      (toSsize (readCount inode.size count offset)) (.read buf count)
  have word : (offset + bytesLeft inode.size count offset) % word64 = offset + bytesLeft inode.size count offset :=
    Nat.mod_eq_of_lt (by simp only [word64]; omega)
  have ret : toSsize (bytesLeft inode.size count offset) = bytesLeft inode.size count offset :=
    if_pos (by simp only [ssizeMax]; omega)
  rw [cut, word, ret]
  exact ⟨same, fits, fun fails => absurd fails (by omega), fun _ => Int.natCast_add _ _⟩

end Reads

/-! One call -/

section Calls

variable {env : Env} {sb : Superblock} {f f' : File} {io io' : Io} {ret : Int}

structure InFile (size : Nat) (f : File) : Prop where
  sized : f.inode.size = size
  inside : f.pos ≤ size

theorem vfsSeek_inFile {size : Nat} (limit : size < 2 ^ 63) (inFile : InFile size f) (offset whence : Int) :
    InFile size (vfsSeek f offset whence).2 ∧
      Positioned f.pos (vfsSeek f offset whence).2.pos (vfsSeek f offset whence).1 (.seek offset whence) := by
  have failed : Positioned f.pos f.pos (-eInval) (.seek offset whence) := .of_failed (by decide)
  have signed : toSsize size = size := if_pos (by simp only [ssizeMax]; omega)
  rw [vfsSeek, inFile.sized, signed]
  by_cases regular : (!isReg f.inode.mode) = true
  · rw [if_pos regular]
    exact ⟨inFile, failed⟩
  rw [if_neg regular]
  cases seekTarget f offset whence with
  | none => exact ⟨inFile, failed⟩
  | some newPos =>
      dsimp only
      by_cases negative : newPos < 0
      · rw [if_pos negative]
        exact ⟨inFile, failed⟩
      rw [if_neg negative]
      -- The target is cut to the size, and then it is a position of 64 bits.
      obtain ⟨pos, cut, le⟩ : ∃ pos : Nat, (if newPos > (size : Int) then (size : Int) else newPos) = pos ∧
        pos ≤ size := by
        split_ifs with far
        · exact ⟨size, rfl, le_rfl⟩
        · exact ⟨newPos.toNat, by omega, by omega⟩
      have word : toSize (pos : Int) = pos := by
        simp only [toSize, word64]
        omega
      rw [cut, word]
      exact ⟨⟨inFile.sized, le⟩, fun negative => absurd negative (by omega), fun _ => rfl⟩

theorem vfsRead_inFile {size : Nat} (limit : size < 2 ^ 63) (inFile : InFile size f) {buf buf' : Memory} {count : Nat}
    (done : vfsRead env sb f buf count io = .ok (ret, buf', f') io') :
    InFile size f' ∧ Positioned f.pos f'.pos ret (.read buf count) := by
  have failed : Positioned f.pos f.pos (-eInval) (.read buf count) := .of_failed (by decide)
  rw [vfsRead] at done
  by_cases regular : (!isReg f.inode.mode) = true
  · rw [if_pos regular] at done
    cases done
    exact ⟨inFile, failed⟩
  by_cases unused : f.refCount = 0
  · rw [if_neg regular, if_pos unused] at done
    cases done
    exact ⟨inFile, failed⟩
  rw [if_neg regular, if_neg unused] at done
  obtain ⟨r, io₁, read, done⟩ := Steps.bind_eq_ok.mp done
  cases done
  have small : (if count > ssizeMax then ssizeMax else count) ≤ ssizeMax := by
    split_ifs <;> omega
  obtain ⟨same, valid, positioned⟩ :=
    ext2ReadFile_position (inFile.sized.symm ▸ limit) small (inFile.sized.symm ▸ inFile.inside) read
  have size : r.inode.asRead.size = f.inode.asRead.size := congrArg Inode.size same
  exact ⟨⟨size.trans inFile.sized, inFile.sized ▸ valid⟩, positioned.failed, positioned.done⟩

theorem fileCall_inFile {size : Nat} (limit : size < 2 ^ 63) (inFile : InFile size f) {op : FileOp}
    (done : fileCall env sb f op io = .ok (ret, f') io') : InFile size f' ∧ Positioned f.pos f'.pos ret op := by
  cases op with
  | seek offset whence =>
      have result : vfsSeek f offset whence = (ret, f') := (EStateM.Result.ok.inj done).1
      have sought := vfsSeek_inFile limit inFile offset whence
      rw [result] at sought
      exact sought
  | read buf count =>
      obtain ⟨⟨ret₁, buf', f₁⟩, io₁, read, done⟩ := Steps.bind_eq_ok.mp done
      cases done
      exact vfsRead_inFile limit inFile read

theorem fileStep_eq_some {s t : File × Io} {op : FileOp} (step : fileStep env sb s op = some t) :
    ∃ ret, fileCall env sb s.1 op s.2 = .ok (ret, t.1) t.2 := by
  rw [fileStep] at step
  cases called : fileCall env sb s.1 op s.2 with
  | ok r io =>
      rw [called] at step
      cases step
      exact ⟨r.1, rfl⟩
  | error e io =>
      rw [called] at step
      cases step

end Calls

/-- From 2⁶³ on the size is negative as an `ssize_t`: a seek to the start goes to the end and returns the size. -/
theorem vfsSeek_large {inode : Inode} (regular : isReg inode.mode = true) (word : inode.size < word64)
    (large : 2 ^ 63 ≤ inode.size) : vfsSeek (openedFile inode) 0 seekSet =
      ((inode.size : Int) - word64, { openedFile inode with pos := inode.size }) := by
  have signed : toSsize inode.size = inode.size - word64 := if_neg (by simp only [ssizeMax]; omega)
  have stored : toSize ((inode.size : Int) - word64) = inode.size := by
    simp only [toSize, word64] at *
    omega
  have negative : (0 : Int) > inode.size - word64 := by
    simp only [word64] at *
    omega
  rw [vfsSeek]
  change (if (!isReg inode.mode) = true then _ else
    ((if (0 : Int) > toSsize inode.size then toSsize inode.size else 0),
      { openedFile inode with pos := toSize (if (0 : Int) > toSsize inode.size then toSsize inode.size else 0) })) = _
  rw [regular, signed, if_pos negative, stored]
  rfl

theorem position_valid_iff (inode : Inode) (regular : isReg inode.mode = true) (word : inode.size < word64) :
    (∀ (env : Env) (sb : Superblock) (io : Io) (ops : List FileOp),
      Throughout (fileStep env sb) PosValid (openedFile inode, io) ops ∧
        Meets (fileStep env sb) (Reported env sb) (openedFile inode, io) ops) ↔ inode.size < 2 ^ 63 := by
  constructor
  · intro valid
    by_contra large
    have reported := (valid workingEnv onePageFs ⟨[], 0, []⟩ [.seek 0 seekSet]).2.1
    have moved := (reported _ _ _ (congrArg (EStateM.Result.ok · _) (vfsSeek_large regular word (by omega)))).failed
      (by omega)
    exact absurd moved (by simp only [openedFile]; omega)
  · intro limit env sb io ops
    have start : InFile inode.size (openedFile inode, io).1 := ⟨rfl, Nat.zero_le _⟩
    have keeps : ∀ (s : File × Io) (op : FileOp) (t : File × Io), InFile inode.size s.1 →
        fileStep env sb s op = some t → InFile inode.size t.1 := by
      intro s op t inFile step
      obtain ⟨ret, called⟩ := fileStep_eq_some step
      exact (fileCall_inFile limit inFile called).1
    refine ⟨throughout_of_invariant keeps (fun s inFile => ?_) start ops, ?_⟩
    · rw [PosValid, inFile.sized]
      exact inFile.inside
    · refine meets_of_invariant (fun s op t inFile _ => keeps s op t inFile) (fun s op inFile _ => ?_) start
        (meets_true _ ops)
      intro ret f io' called
      exact (fileCall_inFile limit inFile called).2

def seeksAndReads : List FileOp :=
  [.seek 4 seekSet, .read (fun _ => 0) 3, .seek (-2) seekCur, .read (fun _ => 0) 20, .seek 30 seekSet]

theorem position_valid_iff_reads :
    Throughout (fileStep workingEnv onePageFs) PosValid (openedFile (fileOf 10 [1] 0), ⟨[], 0, []⟩) seeksAndReads ∧
      Meets (fileStep workingEnv onePageFs) (Reported workingEnv onePageFs) (openedFile (fileOf 10 [1] 0), ⟨[], 0, []⟩)
        seeksAndReads :=
  (position_valid_iff (fileOf 10 [1] 0) rfl (by decide)).mpr (by decide) _ _ _ _

/-- The seek fails, and the position is behind 2⁶³ bytes. -/
theorem failed_seek_moves :
    vfsSeek (openedFile (fileOf (2 ^ 63) [] 0)) 0 seekSet =
        (-2 ^ 63, { openedFile (fileOf (2 ^ 63) [] 0) with pos := 2 ^ 63 }) ∧
      ¬ Reported workingEnv onePageFs (openedFile (fileOf (2 ^ 63) [] 0), ⟨[], 0, []⟩) (.seek 0 seekSet) := by
  have moved : vfsSeek (openedFile (fileOf (2 ^ 63) [] 0)) 0 seekSet =
      (-2 ^ 63, { openedFile (fileOf (2 ^ 63) [] 0) with pos := 2 ^ 63 }) :=
    vfsSeek_large rfl (by decide) (by decide)
  refine ⟨moved, fun reported => ?_⟩
  have same := (reported _ _ _ (congrArg (EStateM.Result.ok · _) moved)).failed (by decide)
  exact absurd same (by decide)

end SnapOS.Ext2Io
