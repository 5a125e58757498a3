/- The registry of block devices and the scan of the disks for partitions. -/
import SnapOS.Ahci
import SnapOS.Lib.Bytes
import Mathlib.Data.List.Basic

namespace SnapOS.Block
open SnapOS.Lib SnapOS.Ahci

def blockDevNameMax : Nat := 32
def blockDevMax : Nat := 32
def mbrOffset : Nat := 446
def mbrEntryCount : Nat := 4
def sizeofMbrPartitionEntry : Nat := 16

/-- A `block_dev`, with the port or the `partition_info` that its `priv_data` points to. -/
inductive BlockDev where
  | zeroed
  | disk (name : List Char) (sectorSize sectorCount port : Nat)
  | partition (name : List Char) (sectorSize sectorCount : Nat) (parent : BlockDev) (lbaStart : Nat)
deriving DecidableEq, Repr

namespace BlockDev

def name : BlockDev → List Char
  | zeroed => []
  | disk name _ _ _ => name
  | partition name _ _ _ _ => name

def sectorSize : BlockDev → Nat
  | zeroed => 0
  | disk _ size _ _ => size
  | partition _ size _ _ _ => size

def sectorCount : BlockDev → Nat
  | zeroed => 0
  | disk _ _ count _ => count
  | partition _ _ count _ _ => count

end BlockDev

/-- A call of `dev->read`. -/
structure Request where
  dev : BlockDev
  lba : Nat
  count : Nat
  iovec : List PhysIovec
deriving DecidableEq, Repr

/-- What the scan has no say in: the status of each request, what the first sector of a device leaves in a buffer, and
whether each allocation succeeds and where. -/
structure Env where
  status : Nat → Int
  firstSector : BlockDev → Memory
  available : Nat → Bool
  address : Nat → Nat

/-- The registered devices, the requests so far, and the allocations that have not been freed. -/
structure Kernel where
  devices : List BlockDev
  room : devices.length ≤ blockDevMax
  requests : List Request
  allocations : Nat
  live : List Nat

def blockDevRegister (bdev : BlockDev) (k : Kernel) : Kernel :=
  if full : blockDevMax ≤ k.devices.length then k
  else
    { k with
      devices := k.devices ++ [bdev]
      room := by
        rw [List.length_append, List.length_singleton]
        exact Nat.lt_of_not_le full }

def Kernel.granted (k : Kernel) : Kernel :=
  { k with allocations := k.allocations + 1, live := k.allocations :: k.live }

def Kernel.refused (k : Kernel) : Kernel := { k with allocations := k.allocations + 1 }

def Kernel.asked (k : Kernel) (r : Request) : Kernel := { k with requests := k.requests ++ [r] }

def kfree (id : Nat) (k : Kernel) : Kernel := { k with live := k.live.erase id }

structure MbrPartitionEntry where
  sysId : Nat
  lbaStart : Nat
  sectorCount : Nat

def mbrEntry (buf : Memory) (i : Nat) : MbrPartitionEntry :=
  let entry := mbrOffset + sizeofMbrPartitionEntry * i
  ⟨(buf (entry + 4)).toNat, buf.load (entry + 8) 4, buf.load (entry + 12) 4⟩

/-- `strcpy` of the parent's name, and `strncat` of the suffix. -/
def partitionName (bdev : BlockDev) (i : Nat) : List Char :=
  bdev.name ++ ['p', Char.ofNat ('0'.toNat + i)].take (blockDevNameMax - bdev.name.length - 1)

def partitionDev (bdev : BlockDev) (buf : Memory) (i : Nat) : BlockDev :=
  .partition (partitionName bdev i) bdev.sectorSize (mbrEntry buf i).sectorCount bdev (mbrEntry buf i).lbaStart

/-- An element of `pbdevs`: the allocation, that of its `priv_data`, and the device. -/
structure Pending where
  id : Nat
  privData : Option Nat
  dev : BlockDev

section Scan

variable (env : Env)

def scanEntries (bdev : BlockDev) (buf : Memory) : List Nat → List Pending → Kernel → Int × List Pending × Kernel
  | [], pbdevs, k => (0, pbdevs, k)
  | i :: rest, pbdevs, k =>
      if (mbrEntry buf i).sysId = 0 then scanEntries bdev buf rest pbdevs k
      else if env.available k.allocations then
        let pbdev := k.allocations
        if env.available k.granted.allocations then
          let pinfo := k.granted.allocations
          scanEntries bdev buf rest (pbdevs ++ [⟨pbdev, some pinfo, partitionDev bdev buf i⟩]) k.granted.granted
        else (-eNoMem, pbdevs ++ [⟨pbdev, none, .zeroed⟩], k.granted.refused)
      else (-eNoMem, pbdevs, k.refused)

def freePrivData (privData : Option Nat) (k : Kernel) : Kernel :=
  match privData with
  | none => k
  | some pinfo => kfree pinfo k

def exitLoop (res : Int) : List Pending → Kernel → Kernel
  | [], k => k
  | p :: rest, k =>
      if res ≠ 0 then exitLoop res rest (kfree p.id (freePrivData p.privData k))
      else exitLoop res rest (blockDevRegister p.dev k)

def partitionScan (bdev : BlockDev) (k : Kernel) : Int × Kernel :=
  let size := if 512 < bdev.sectorSize then bdev.sectorSize else 512
  if env.available k.allocations then
    let buf := k.allocations
    let asked := k.granted.asked ⟨bdev, 0, 1, [⟨env.address buf, size⟩]⟩
    if env.status k.requests.length ≠ 0 then (-eIo, kfree buf asked)
    else
      let scanned := scanEntries env bdev (env.firstSector bdev) (List.range mbrEntryCount) [] asked
      let res := scanned.1
      let pbdevs := scanned.2.1
      (if res = 0 then pbdevs.length else res, kfree buf (exitLoop res pbdevs scanned.2.2))
  else (-eNoMem, k.refused)

/-- The loop reads the registry while it grows. -/
def scanLoop : List Nat → Int → Kernel → Int × Kernel
  | [], count, k => (count, k)
  | i :: rest, count, k =>
      let scanned := partitionScan env (k.devices.getD i .zeroed) k
      if scanned.1 < 0 then scanned else scanLoop rest (count + scanned.1) scanned.2

def vfsScanPartitions (k : Kernel) : Int × Kernel := scanLoop env (List.range k.devices.length) 0 k

/-! What the scan is for. -/

def partitionsIn (bdev : BlockDev) (buf : Memory) (entries : List Nat) : List BlockDev :=
  (entries.filter fun i => (mbrEntry buf i).sysId ≠ 0).map (partitionDev bdev buf)

def partitionsOf (bdev : BlockDev) : List BlockDev :=
  partitionsIn bdev (env.firstSector bdev) (List.range mbrEntryCount)

def found (k : Kernel) : List BlockDev := k.devices.flatMap (partitionsOf env)

/-- A scan of a disk meets no failure: its request succeeds, and so do the allocations for the buffer and, twice, for
each partition. -/
def Succeeds (bdev : BlockDev) (allocations requests : Nat) : Prop :=
  env.status requests = 0 ∧ ∀ a < 1 + 2 * (partitionsOf env bdev).length, env.available (allocations + a) = true

/-- No scan of the disks in a row meets a failure. -/
def Undisturbed : List BlockDev → Nat → Nat → Prop
  | [], _, _ => True
  | bdev :: rest, allocations, requests =>
      Succeeds env bdev allocations requests ∧
        Undisturbed rest (allocations + (1 + 2 * (partitionsOf env bdev).length)) (requests + 1)

/-- A scan that returns a number has registered that many devices: each partition of each disk, in order. The scan of a
disk that fails has registered nothing and keeps no memory. -/
structure ScansExactly (k : Kernel) : Prop where
  appended : 0 ≤ (vfsScanPartitions env k).1 →
    (vfsScanPartitions env k).1 = (found env k).length ∧
      (vfsScanPartitions env k).2.devices = k.devices ++ found env k
  undone : ∀ bdev k', (partitionScan env bdev k').1 < 0 →
    (partitionScan env bdev k').2.devices = k'.devices ∧ (partitionScan env bdev k').2.live.Perm k'.live

end Scan

/-! Registering: the devices that still fit are appended. -/

theorem take_room (k : Kernel) : k.devices.take blockDevMax = k.devices := List.take_of_length_le k.room

theorem devices_register (bdev : BlockDev) (k : Kernel) :
    (blockDevRegister bdev k).devices = (k.devices ++ [bdev]).take blockDevMax := by
  rw [blockDevRegister]
  split
  · next full => rw [List.take_append_of_le_length full, take_room]
  · next free =>
      refine (List.take_of_length_le ?_).symm
      rw [List.length_append, List.length_singleton]
      exact Nat.lt_of_not_le free

theorem take_take_append (n : Nat) (front back : List BlockDev) :
    (front.take n ++ back).take n = (front ++ back).take n := by
  rw [List.take_append, List.take_append, List.take_take, Nat.min_self, List.length_take]
  congr 2
  omega

theorem devices_exitLoop (pbdevs : List Pending) (k : Kernel) :
    (exitLoop 0 pbdevs k).devices = (k.devices ++ pbdevs.map Pending.dev).take blockDevMax := by
  induction pbdevs generalizing k with
  | nil => rw [List.map_nil, List.append_nil, take_room, exitLoop]
  | cons p rest ih =>
      rw [exitLoop, if_neg (by decide), ih, devices_register, take_take_append, List.append_assoc, List.map_cons,
        List.singleton_append]

/-- Only registering changes the registry, and only a request the list of requests. -/
theorem registers_only (res : Int) (pbdevs : List Pending) (k : Kernel) :
    (exitLoop res pbdevs k).requests = k.requests ∧ (exitLoop res pbdevs k).allocations = k.allocations := by
  induction pbdevs generalizing k with
  | nil => exact ⟨rfl, rfl⟩
  | cons p rest ih =>
      rw [exitLoop]
      split
      · obtain ⟨requests, allocations⟩ := ih (kfree p.id (freePrivData p.privData k))
        rw [requests, allocations]
        cases p.privData <;> exact ⟨rfl, rfl⟩
      · obtain ⟨requests, allocations⟩ := ih (blockDevRegister p.dev k)
        rw [requests, allocations, blockDevRegister]
        split <;> exact ⟨rfl, rfl⟩

/-! Undoing: what `pbdevs` holds is all that was allocated. -/

def Pending.ids (p : Pending) : List Nat := p.privData.toList ++ [p.id]

/-- The memory of `pbdevs` besides what was there before. -/
def Owned (before : List Nat) (pbdevs : List Pending) (k : Kernel) : Prop :=
  k.live.Perm (pbdevs.flatMap Pending.ids ++ before)

theorem erase_perm {id : Nat} {live rest : List Nat} (owned : live.Perm (id :: rest)) : (live.erase id).Perm rest := by
  have := owned.erase id
  rwa [List.erase_cons_head] at this

theorem Owned.free {before : List Nat} {p : Pending} {rest : List Pending} {k : Kernel}
    (owned : Owned before (p :: rest) k) : Owned before rest (kfree p.id (freePrivData p.privData k)) := by
  rw [Owned, List.flatMap_cons, Pending.ids] at owned
  cases held : p.privData with
  | none =>
      rw [held] at owned
      exact erase_perm owned
  | some pinfo =>
      rw [held] at owned
      exact erase_perm (erase_perm owned)

theorem exitLoop_undoes {res : Int} (failed : res ≠ 0) {before : List Nat} (pbdevs : List Pending) {k : Kernel}
    (owned : Owned before pbdevs k) :
    (exitLoop res pbdevs k).devices = k.devices ∧ (exitLoop res pbdevs k).live.Perm before := by
  induction pbdevs generalizing k with
  | nil => exact ⟨rfl, owned⟩
  | cons p rest ih =>
      rw [exitLoop, if_pos failed]
      obtain ⟨devices, live⟩ := ih owned.free
      refine ⟨devices.trans ?_, live⟩
      cases p.privData <;> rfl

theorem Owned.grow {before : List Nat} {pbdevs : List Pending} {k k' : Kernel} (owned : Owned before pbdevs k)
    (p : Pending) (live : k'.live.Perm (p.ids ++ k.live)) : Owned before (pbdevs ++ [p]) k' := by
  have later : (p.ids ++ k.live).Perm (p.ids ++ (pbdevs.flatMap Pending.ids ++ before)) := owned.append_left p.ids
  refine (live.trans later).trans ?_
  rw [List.flatMap_append, List.flatMap_singleton, ← List.append_assoc]
  exact List.perm_append_comm.append_right before

/-! The loop over the entries. -/

section Entries

variable {env : Env} (bdev : BlockDev) (buf : Memory)

theorem partitionsIn_skip {i : Nat} (empty : (mbrEntry buf i).sysId = 0) (rest : List Nat) :
    partitionsIn bdev buf (i :: rest) = partitionsIn bdev buf rest := by
  rw [partitionsIn, List.filter_cons_of_neg (by simp [empty])]
  rfl

theorem partitionsIn_take {i : Nat} (used : (mbrEntry buf i).sysId ≠ 0) (rest : List Nat) :
    partitionsIn bdev buf (i :: rest) = partitionDev bdev buf i :: partitionsIn bdev buf rest := by
  rw [partitionsIn, List.filter_cons_of_pos (by simp [used]), List.map_cons]
  rfl

theorem scanEntries_owned (env : Env) (entries : List Nat) {before : List Nat} {pbdevs : List Pending} {k : Kernel}
    (owned : Owned before pbdevs k) :
    Owned before (scanEntries env bdev buf entries pbdevs k).2.1 (scanEntries env bdev buf entries pbdevs k).2.2 ∧
      (scanEntries env bdev buf entries pbdevs k).2.2.devices = k.devices := by
  induction entries generalizing pbdevs k with
  | nil => exact ⟨owned, rfl⟩
  | cons i rest ih =>
      rw [scanEntries]
      split
      · exact ih owned
      · split
        · split
          · exact ih (owned.grow ⟨_, some _, _⟩ (List.Perm.refl _))
          · exact ⟨owned.grow ⟨_, none, _⟩ (List.Perm.refl _), rfl⟩
        · exact ⟨owned, rfl⟩

/-- With enough memory each entry in use becomes a device. -/
theorem scanEntries_all (entries : List Nat) (pbdevs : List Pending) (k : Kernel)
    (memory : ∀ a < 2 * (partitionsIn bdev buf entries).length, env.available (k.allocations + a) = true) :
    ∃ new k', scanEntries env bdev buf entries pbdevs k = (0, pbdevs ++ new, k') ∧
      new.map Pending.dev = partitionsIn bdev buf entries ∧ k'.requests = k.requests ∧
      k'.allocations = k.allocations + 2 * (partitionsIn bdev buf entries).length := by
  induction entries generalizing pbdevs k with
  | nil => exact ⟨[], k, by rw [List.append_nil, scanEntries], rfl, rfl, rfl⟩
  | cons i rest ih =>
      by_cases empty : (mbrEntry buf i).sysId = 0
      · rw [partitionsIn_skip bdev buf empty] at memory ⊢
        rw [scanEntries, if_pos empty]
        exact ih pbdevs k memory
      · rw [partitionsIn_take bdev buf empty, List.length_cons] at memory ⊢
        have first : env.available k.allocations = true := memory 0 (by omega)
        have second : env.available k.granted.allocations = true := memory 1 (by omega)
        obtain ⟨new, k', done, devs, requests, allocations⟩ :=
          ih (pbdevs ++ [⟨k.allocations, some k.granted.allocations, partitionDev bdev buf i⟩]) k.granted.granted
            fun a below => by
              have := memory (2 + a) (by omega)
              rwa [← Nat.add_assoc] at this
        rw [scanEntries, if_neg empty, if_pos first]
        dsimp only
        rw [if_pos second, done, List.append_assoc]
        refine ⟨_, k', rfl, ?_, requests, ?_⟩
        · rw [List.singleton_append, List.map_cons, devs]
        · rw [allocations]
          change k.allocations + 1 + 1 + _ = _
          omega

theorem scanEntries_fails (entries : List Nat) (pbdevs : List Pending) (k : Kernel)
    (short : ¬ ∀ a < 2 * (partitionsIn bdev buf entries).length, env.available (k.allocations + a) = true) :
    (scanEntries env bdev buf entries pbdevs k).1 = -eNoMem := by
  induction entries generalizing pbdevs k with
  | nil => exact absurd (fun a below => absurd below (Nat.not_lt_zero a)) short
  | cons i rest ih =>
      rw [scanEntries]
      split
      · next empty =>
          rw [partitionsIn_skip bdev buf empty] at short
          exact ih pbdevs k short
      · next used =>
          rw [partitionsIn_take bdev buf used, List.length_cons] at short
          split
          · next first =>
              dsimp only
              split
              · next second =>
                  refine ih _ _ fun later => short fun a below => ?_
                  rcases a with _ | _ | a
                  · exact first
                  · exact second
                  · have := later a (by omega)
                    change env.available (k.allocations + 1 + 1 + a) = true at this
                    rwa [show k.allocations + (a + 1 + 1) = k.allocations + 1 + 1 + a by omega]
              · rfl
          · rfl

end Entries

/-! The scan of one disk. -/

section Disk

variable {env : Env} {bdev : BlockDev} {k : Kernel}

theorem partitionScan_succeeds (good : Succeeds env bdev k.allocations k.requests.length) :
    (partitionScan env bdev k).1 = (partitionsOf env bdev).length ∧
      (partitionScan env bdev k).2.devices = (k.devices ++ partitionsOf env bdev).take blockDevMax ∧
      (partitionScan env bdev k).2.allocations = k.allocations + (1 + 2 * (partitionsOf env bdev).length) ∧
      (partitionScan env bdev k).2.requests.length = k.requests.length + 1 := by
  obtain ⟨status, memory⟩ := good
  have buffer : env.available k.allocations = true := memory 0 (by omega)
  rw [partitionScan]
  dsimp only
  rw [if_pos buffer, if_neg (not_not.mpr status)]
  generalize asking : k.granted.asked _ = asked
  obtain ⟨new, k', done, devs, requests, allocations⟩ :=
    scanEntries_all bdev (env.firstSector bdev) (List.range mbrEntryCount) [] asked fun a below => by
      have := memory (1 + a) (by
        rw [partitionsOf]
        omega)
      rw [← asking]
      rwa [← Nat.add_assoc] at this
  have owned := scanEntries_owned bdev (env.firstSector bdev) env (List.range mbrEntryCount)
    (show Owned asked.live [] asked from List.Perm.refl _)
  rw [done] at owned ⊢
  dsimp only
  obtain ⟨sameRequests, sameAllocations⟩ := registers_only 0 new k'
  refine ⟨?_, ?_, ?_, ?_⟩
  · rw [if_pos rfl, List.nil_append, ← List.length_map Pending.dev, devs, partitionsOf]
  · change (exitLoop 0 new k').devices = _
    rw [devices_exitLoop, devs, owned.2, ← asking]
    rfl
  · change (exitLoop 0 new k').allocations = _
    rw [sameAllocations, allocations, ← asking, partitionsOf, ← Nat.add_assoc]
    rfl
  · change (exitLoop 0 new k').requests.length = _
    rw [sameRequests, requests, ← asking]
    exact List.length_append

theorem partitionScan_fails (bad : ¬ Succeeds env bdev k.allocations k.requests.length) :
    (partitionScan env bdev k).1 < 0 := by
  rw [partitionScan]
  dsimp only
  split
  · next buffer =>
      split
      · exact (by decide : -eIo < 0)
      · next status =>
          have short : ¬ ∀ a < 2 * (partitionsOf env bdev).length, env.available (k.allocations + 1 + a) = true := by
            refine fun memory => bad ⟨not_not.mp status, fun a below => ?_⟩
            rcases a with _ | a
            · exact buffer
            · have := memory a (by omega)
              rwa [Nat.add_right_comm] at this
          rw [partitionsOf] at short
          rw [scanEntries_fails bdev (env.firstSector bdev) (List.range mbrEntryCount) [] (k.granted.asked _) short]
          exact (by decide : -eNoMem < 0)
  · exact (by decide : -eNoMem < 0)

/-- A scan that fails has registered nothing and keeps no memory. -/
theorem partitionScan_undone (failed : (partitionScan env bdev k).1 < 0) :
    (partitionScan env bdev k).2.devices = k.devices ∧ (partitionScan env bdev k).2.live.Perm k.live := by
  rw [partitionScan] at failed ⊢
  dsimp only at failed ⊢
  split at failed
  · next buffer =>
      rw [if_pos buffer]
      split at failed
      · next status =>
          rw [if_pos status]
          exact ⟨rfl, erase_perm (List.Perm.refl _)⟩
      · next status =>
          rw [if_neg status]
          generalize asking : k.granted.asked _ = asked at failed ⊢
          have owned := scanEntries_owned bdev (env.firstSector bdev) env (List.range mbrEntryCount)
            (show Owned asked.live [] asked from List.Perm.refl _)
          generalize scanEntries env bdev (env.firstSector bdev) (List.range mbrEntryCount) [] asked = scanned at *
          have res : scanned.1 ≠ 0 := by
            intro zero
            rw [if_pos zero] at failed
            omega
          obtain ⟨devices, live⟩ := exitLoop_undoes res scanned.2.1 owned.1
          refine ⟨devices.trans (owned.2.trans ?_), erase_perm (live.trans ?_)⟩
          · rw [← asking]
            rfl
          · rw [← asking]
            exact List.Perm.refl _
  · next buffer =>
      rw [if_neg buffer]
      exact ⟨rfl, List.Perm.refl _⟩

end Disk

/-! The scan of all disks. -/

section Run

variable {env : Env}

theorem getD_registered {front rest new : List BlockDev} {bdev : BlockDev} {k : Kernel}
    (registered : k.devices = (front ++ bdev :: rest ++ new).take blockDevMax)
    (room : (front ++ bdev :: rest).length ≤ blockDevMax) : k.devices.getD front.length .zeroed = bdev := by
  rw [List.length_append, List.length_cons] at room
  rw [registered, List.getD_eq_getElem?_getD, List.getElem?_take_of_lt (by omega), List.append_assoc,
    List.getElem?_append_right (Nat.le_refl _), Nat.sub_self]
  rfl

/-- The disks `front` have been scanned, which has found `new`. -/
theorem scanLoop_undisturbed (rest front new : List BlockDev) (count : Int) (k : Kernel)
    (registered : k.devices = (front ++ rest ++ new).take blockDevMax) (room : (front ++ rest).length ≤ blockDevMax)
    (undisturbed : Undisturbed env rest k.allocations k.requests.length) :
    (scanLoop env (List.range' front.length rest.length) count k).1 =
        count + (rest.flatMap (partitionsOf env)).length ∧
      (scanLoop env (List.range' front.length rest.length) count k).2.devices =
        (front ++ rest ++ (new ++ rest.flatMap (partitionsOf env))).take blockDevMax := by
  induction rest generalizing front new count k with
  | nil => exact ⟨(Int.add_zero count).symm, by rw [List.flatMap_nil, List.append_nil new]; exact registered⟩
  | cons bdev rest ih =>
      obtain ⟨good, later⟩ := undisturbed
      obtain ⟨ret, devices, allocations, requests⟩ := partitionScan_succeeds good
      rw [← allocations, ← requests] at later
      have shift : front ++ bdev :: rest = (front ++ [bdev]) ++ rest := by simp
      rw [registered, take_take_append, shift, List.append_assoc _ new] at devices
      rw [shift] at room
      obtain ⟨total, all⟩ := ih (front ++ [bdev]) (new ++ partitionsOf env bdev)
        (count + (partitionsOf env bdev).length) (partitionScan env bdev k).2 devices room later
      rw [List.length_append, List.length_singleton] at total all
      rw [List.length_cons, List.range'_succ, scanLoop, getD_registered registered (shift ▸ room)]
      rw [if_neg (by omega), ret, total, all, List.flatMap_cons, List.length_append, shift, List.append_assoc new]
      exact ⟨by omega, rfl⟩

theorem scanLoop_disturbed (rest front new : List BlockDev) (count : Int) (k : Kernel)
    (registered : k.devices = (front ++ rest ++ new).take blockDevMax) (room : (front ++ rest).length ≤ blockDevMax)
    (disturbed : ¬ Undisturbed env rest k.allocations k.requests.length) :
    (scanLoop env (List.range' front.length rest.length) count k).1 < 0 := by
  induction rest generalizing front new count k with
  | nil => exact absurd trivial disturbed
  | cons bdev rest ih =>
      have shift : front ++ bdev :: rest = (front ++ [bdev]) ++ rest := by simp
      rw [List.length_cons, List.range'_succ, scanLoop, getD_registered registered room]
      split
      · next failed => exact failed
      · next counted =>
          have good : Succeeds env bdev k.allocations k.requests.length := by
            by_contra bad
            exact counted (partitionScan_fails bad)
          obtain ⟨-, devices, allocations, requests⟩ := partitionScan_succeeds good
          have later := fun undisturbed => disturbed ⟨good, undisturbed⟩
          rw [← allocations, ← requests] at later
          rw [registered, take_take_append, shift, List.append_assoc _ new] at devices
          rw [shift] at room
          have negative := ih (front ++ [bdev]) (new ++ partitionsOf env bdev)
            (count + (partitionScan env bdev k).1) (partitionScan env bdev k).2 devices room later
          rwa [List.length_append, List.length_singleton] at negative

variable {k : Kernel}

theorem vfsScan_undisturbed (undisturbed : Undisturbed env k.devices k.allocations k.requests.length) :
    (vfsScanPartitions env k).1 = (found env k).length ∧
      (vfsScanPartitions env k).2.devices = (k.devices ++ found env k).take blockDevMax := by
  have scanned := scanLoop_undisturbed k.devices [] [] 0 k
    (by rw [List.nil_append, List.append_nil, take_room]) k.room undisturbed
  rw [Int.zero_add, List.length_nil, ← List.range_eq_range'] at scanned
  exact scanned

theorem vfsScan_disturbed (disturbed : ¬ Undisturbed env k.devices k.allocations k.requests.length) :
    (vfsScanPartitions env k).1 < 0 := by
  have scanned := scanLoop_disturbed k.devices [] [] 0 k
    (by rw [List.nil_append, List.append_nil, take_room]) k.room disturbed
  rw [List.length_nil, ← List.range_eq_range'] at scanned
  exact scanned

end Run

/-- The scan is exact unless it has to drop partitions that do not fit into the registry. -/
theorem vfsScanPartitions_exact_iff (env : Env) (k : Kernel) :
    ScansExactly env k ↔ ¬ Undisturbed env k.devices k.allocations k.requests.length ∨
      k.devices.length + (found env k).length ≤ blockDevMax := by
  by_cases undisturbed : Undisturbed env k.devices k.allocations k.requests.length
  · obtain ⟨ret, devices⟩ := vfsScan_undisturbed undisturbed
    constructor
    · intro exactly
      obtain ⟨-, all⟩ := exactly.appended (by omega)
      have room := (vfsScanPartitions env k).2.room
      rw [all, List.length_append] at room
      exact Or.inr room
    · intro fits
      have room := fits.resolve_left (not_not.mpr undisturbed)
      refine ⟨fun _ => ⟨ret, devices.trans (List.take_of_length_le ?_)⟩, fun _ _ => partitionScan_undone⟩
      rwa [List.length_append]
  · refine ⟨fun _ => Or.inl undisturbed, fun _ => ⟨fun counted => ?_, fun _ _ => partitionScan_undone⟩⟩
    have negative := vfsScan_disturbed undisturbed
    omega

def sevenDisks : Kernel where
  devices := (List.range 7).map fun i => .disk ['s', 'a', 't', 'a', Char.ofNat (48 + i)] 512 1000000 i
  room := by decide
  requests := []
  allocations := 0
  live := []

def fourPartitions : Env := ⟨fun _ => 0, fun _ _ => 1, fun _ => true, fun _ => 0⟩

/-- The scan counts 28 partitions, and three of them do not fit beside the disks. -/
theorem partitions_dropped : ¬ ScansExactly fourPartitions sevenDisks := by
  intro exactly
  have undisturbed : Undisturbed fourPartitions sevenDisks.devices 0 0 :=
    ⟨⟨rfl, fun _ _ => rfl⟩, ⟨rfl, fun _ _ => rfl⟩, ⟨rfl, fun _ _ => rfl⟩, ⟨rfl, fun _ _ => rfl⟩,
      ⟨rfl, fun _ _ => rfl⟩, ⟨rfl, fun _ _ => rfl⟩, ⟨rfl, fun _ _ => rfl⟩, trivial⟩
  obtain ⟨ret, -⟩ := vfsScan_undisturbed undisturbed
  obtain ⟨-, all⟩ := exactly.appended (by omega)
  have room := (vfsScanPartitions fourPartitions sevenDisks).2.room
  rw [all] at room
  exact absurd room (by decide)

end SnapOS.Block
