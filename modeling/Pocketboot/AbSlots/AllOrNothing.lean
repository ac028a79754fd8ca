import Pocketboot.AbSlots.SetActive

/-!
# When a rejected switch has changed nothing

The loop of `set_active_slot` visits the disks in name order.  Every disk has
its own device, so what a visit does depends on that device alone, and a
rejection leaves the devices of the disks visited before it as their commits
made them.
-/

namespace Pocketboot.AbSlots

open Storage

section Visits

variable (env : Environment) (bootDisk : Name) (slot : Slot) (store : Store)

/-- The loop body on a disk, with the device the disk has before the loop. -/
def visit (disk : Disk) : Device × Run Failure Report :=
  switchDisk (env disk.name) (store disk.name) bootDisk slot disk

/-- The checks of a disk's tables before its commit. -/
def checks (disk : Disk) : Run IoError (Option Prepared) :=
  prepare (env disk.name) (store disk.name) bootDisk slot disk

/-- The devices after visits of the listed disks. -/
structure Visited (after : Store) (disks : List Disk) : Prop where
  visited : ∀ disk ∈ disks,
    after disk.name = (visit env bootDisk slot store disk).1
  others : ∀ name, (∀ disk ∈ disks, disk.name ≠ name) →
    after name = store name

end Visits

/-! ### What a load reads -/

section Visits

variable {env : Environment} {bootDisk : Name} {slot : Slot} {store : Store}
  {disk : Disk}

end Visits

/-! ### The loop -/

section Loop

variable {env : Environment} {bootDisk : Name} {slot : Slot}

/-- A visit depends on the device of its own disk only. -/
theorem visit_congr (env : Environment) (bootDisk : Name) (slot : Slot)
    {left right : Store} {disk : Disk}
    (same : left disk.name = right disk.name) :
    visit env bootDisk slot left disk = visit env bootDisk slot right disk ∧
      checks env bootDisk slot left disk =
        checks env bootDisk slot right disk := by
  unfold visit checks
  rw [same]
  exact ⟨rfl, rfl⟩

theorem Visited.cons {store after : Store} {disk : Disk} {rest : List Disk}
    (fresh : disk.name ∉ rest.map Disk.name)
    (later : Visited env bootDisk slot (Function.update store disk.name
      (visit env bootDisk slot store disk).1) after rest) :
    Visited env bootDisk slot store after (disk :: rest) where
  visited := by
    intro listed member
    rcases List.mem_cons.mp member with rfl | inRest
    · rw [later.others listed.name fun other otherListed same =>
        fresh (List.mem_map.mpr ⟨other, otherListed, same⟩)]
      simp
    · rw [later.visited listed inRest]
      refine congrArg Prod.fst (visit_congr _ _ _ ?_).1
      refine Function.update_of_ne (fun same => fresh ?_) _ _
      exact List.mem_map.mpr ⟨listed, inRest, same⟩
  others := by
    intro name different
    rw [later.others name fun other listed =>
      different other (List.mem_cons_of_mem _ listed)]
    exact Function.update_of_ne (different disk List.mem_cons_self).symm _ _

end Loop

end Pocketboot.AbSlots
