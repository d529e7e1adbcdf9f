import Mathlib.Logic.Function.Basic
import Mathlib.Data.List.Basic

/-!
# A disk that loses what was not synchronised

A directory and the files its names refer to. The changes of the directory reach the disk in
their order, at some time; the data of a file reaches it for certain only when the file is
synchronised.

* `File`, `Change`, `Disk`, and the operations;
* `powerLoss`, which keeps some of the changes and any data of a file that was not synchronised;
* `Possible`, what a name may refer to after a loss of power;
* `possible_change`, `possible_powerLoss`.
-/

namespace Tokenweir

/-- A file, with what a reader sees of it. -/
structure File (β : Type) where
  content : List β
  synced : Bool

/-- A change of the directory. -/
inductive Change (ν : Type)
  | link (name : ν) (inode : ℕ)
  | unlink (name : ν)
  | rename (source target : ν)

/-- The file of every name. -/
abbrev Directory (ν : Type) := ν → Option ℕ

/-- The settled directory is on the disk; the changes since are not, yet. -/
structure Disk (ν β : Type) where
  files : List (File β)
  settled : Directory ν
  journal : List (Change ν)

variable {ν β : Type}

section

variable [DecidableEq ν]

/-- `rename` takes the name from whatever had it. -/
def Change.apply (dir : Directory ν) : Change ν → Directory ν
  | .link x i => Function.update dir x (some i)
  | .unlink x => Function.update dir x none
  | .rename x y =>
    if x = y then dir else Function.update (Function.update dir y (dir x)) x none

namespace Disk

/-- What a process sees. -/
def dir (d : Disk ν β) : Directory ν := d.journal.foldl Change.apply d.settled

def read (d : Disk ν β) (x : ν) : Option (List β) :=
  (d.dir x).bind fun i => d.files[i]?.map File.content

def change (d : Disk ν β) (c : Change ν) : Disk ν β := { d with journal := d.journal ++ [c] }

/-- A new file, which is the last one. -/
def create (d : Disk ν β) (x : ν) : Disk ν β where
  files := d.files ++ [⟨[], false⟩]
  settled := d.settled
  journal := d.journal ++ [.link x d.files.length]

def append (d : Disk ν β) (i : ℕ) (data : List β) : Disk ν β :=
  { d with files := d.files.modify i fun f => ⟨f.content ++ data, false⟩ }

def sync (d : Disk ν β) (i : ℕ) : Disk ν β :=
  { d with files := d.files.modify i fun f => { f with synced := true } }

/-- The first changes are kept, and of a file that was not synchronised anything. -/
def powerLoss (d : Disk ν β) (kept : ℕ) (garbage : ℕ → List β) : Disk ν β where
  files := d.files.mapIdx fun i f => ⟨if f.synced then f.content else garbage i, true⟩
  settled := (d.journal.take kept).foldl Change.apply d.settled
  journal := []

end Disk

end

namespace Disk

/-! ### What a process sees -/

@[simp] theorem files_change (d : Disk ν β) (c : Change ν) : (d.change c).files = d.files := rfl

@[simp] theorem files_create (d : Disk ν β) (x : ν) :
    (d.create x).files = d.files ++ [⟨[], false⟩] := rfl

/-- A file that is not written to stays as it is. -/
theorem files_append_of_ne {d : Disk ν β} {i j : ℕ} (h : i ≠ j) (data : List β) :
    (d.append i data).files[j]? = d.files[j]? :=
  List.getElem?_modify_ne _ _ h

theorem files_sync_of_ne {d : Disk ν β} {i j : ℕ} (h : i ≠ j) :
    (d.sync i).files[j]? = d.files[j]? :=
  List.getElem?_modify_ne _ _ h

theorem files_append_self {d : Disk ν β} {i : ℕ} {f : File β} (h : d.files[i]? = some f)
    (data : List β) : (d.append i data).files[i]? = some ⟨f.content ++ data, false⟩ := by
  show (d.files.modify i _)[i]? = _
  rw [List.getElem?_modify_eq, h]
  rfl

theorem files_sync_self {d : Disk ν β} {i : ℕ} {f : File β} (h : d.files[i]? = some f) :
    (d.sync i).files[i]? = some ⟨f.content, true⟩ := by
  show (d.files.modify i _)[i]? = _
  rw [List.getElem?_modify_eq, h]
  rfl

variable [DecidableEq ν]

theorem dir_change (d : Disk ν β) (c : Change ν) : (d.change c).dir = c.apply d.dir := by
  rw [dir, change, List.foldl_append]
  rfl

@[simp] theorem dir_append (d : Disk ν β) (i : ℕ) (data : List β) : (d.append i data).dir = d.dir :=
  rfl

@[simp] theorem dir_sync (d : Disk ν β) (i : ℕ) : (d.sync i).dir = d.dir := rfl

theorem dir_create (d : Disk ν β) (x : ν) :
    (d.create x).dir = Function.update d.dir x (some d.files.length) :=
  dir_change d (.link x d.files.length)

theorem read_of {d : Disk ν β} {x : ν} {i : ℕ} {f : File β} (hx : d.dir x = some i)
    (hi : d.files[i]? = some f) : d.read x = some f.content := by
  rw [read, hx, Option.bind_some, hi]
  rfl

theorem read_eq_none {d : Disk ν β} {x : ν} (h : d.dir x = none) : d.read x = none := by
  rw [read, h, Option.bind_none]

/-! ### What is left after a loss of power -/

/-- A name may refer to a file, or to none, after a loss of power. -/
def Possible (d : Disk ν β) (x : ν) (o : Option ℕ) : Prop :=
  ∃ kept, (d.journal.take kept).foldl Change.apply d.settled x = o

/-- What a process sees may be what is left. -/
theorem possible_dir (d : Disk ν β) (x : ν) : d.Possible x (d.dir x) :=
  ⟨d.journal.length, by rw [List.take_length]; rfl⟩

/-- A change adds what it makes of the directory. -/
theorem possible_change {d : Disk ν β} {c : Change ν} {x : ν} {o : Option ℕ} :
    (d.change c).Possible x o ↔ d.Possible x o ∨ c.apply d.dir x = o := by
  constructor
  · rintro ⟨kept, h⟩
    rcases Nat.lt_or_ge d.journal.length kept with hkept | hkept
    · refine .inr ?_
      rw [← dir_change, dir, ← h, List.take_of_length_le]
      rw [change, List.length_append]
      exact hkept
    · refine .inl ⟨kept, ?_⟩
      rwa [change, List.take_append_of_le_length hkept] at h
  · rintro (⟨kept, h⟩ | h)
    · refine ⟨min kept d.journal.length, ?_⟩
      rw [change, List.take_append_of_le_length (Nat.min_le_right _ _), ← List.take_eq_take_min]
      exact h
    · rw [← dir_change] at h
      rw [← h]
      exact possible_dir _ x

@[simp] theorem possible_append {d : Disk ν β} {i : ℕ} {data : List β} {x : ν} {o : Option ℕ} :
    (d.append i data).Possible x o ↔ d.Possible x o := Iff.rfl

@[simp] theorem possible_sync {d : Disk ν β} {i : ℕ} {x : ν} {o : Option ℕ} :
    (d.sync i).Possible x o ↔ d.Possible x o := Iff.rfl

theorem possible_create {d : Disk ν β} {x y : ν} {o : Option ℕ} :
    (d.create x).Possible y o ↔
      d.Possible y o ∨ Function.update d.dir x (some d.files.length) y = o :=
  possible_change (c := .link x d.files.length)

theorem possible_powerLoss {d : Disk ν β} {kept : ℕ} {garbage : ℕ → List β} {x : ν}
    {o : Option ℕ} (h : (d.powerLoss kept garbage).Possible x o) : d.Possible x o := by
  obtain ⟨n, h⟩ := h
  rw [powerLoss, List.take_nil] at h
  exact ⟨kept, h⟩

/-- A file that was synchronised is left as it is. -/
theorem files_powerLoss {d : Disk ν β} {i : ℕ} {f : File β} (h : d.files[i]? = some f)
    (hsynced : f.synced = true) (kept : ℕ) (garbage : ℕ → List β) :
    (d.powerLoss kept garbage).files[i]? = some f := by
  obtain ⟨content, synced⟩ := f
  obtain rfl : synced = true := hsynced
  rw [powerLoss, List.getElem?_mapIdx, h]
  rfl

end Disk

end Tokenweir
