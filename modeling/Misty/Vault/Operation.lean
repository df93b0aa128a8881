import Misty.Vault.Sync

/- The public operations as one type, so that a run is a list of them. An
   operation with one transaction is what it prepares (`AtomicOp.staged`) followed
   by `settle`; the three that have several are loops of such steps. -/
namespace Misty

/-- The operations that commit one object. -/
inductive ObjectOp where
  | add (new : NewItem)
  | mergeDuplicate (existing : ItemId) (new : NewItem)
  | update (id : ItemId) (edit : Edit)
  | addTag (id : ItemId) (tag : Text)
  | removeTag (id : ItemId) (tag : Text)
  | addOrigin (id : ItemId) (origin : Text)
  | removeOrigin (id : ItemId) (origin : Text)
  | addToGroup (id : ItemId) (group : GroupId)
  | removeFromGroup (id : ItemId) (group : GroupId)
  | recordUse (id : ItemId)
  | advanceHotpCounter (id : ItemId)
  | setHotpCounter (id : ItemId) (counter : U64)
  | repairSecret (id : ItemId) (secret : SecretBytes)
  | trashItem (id : ItemId)
  | restoreItem (id : ItemId)
  | deleteItem (id : ItemId)
  | addGroup (name : Text)
  | updateGroup (id : GroupId) (name : Option Text) (color : Option (Option U32))
      (manualOrder : Option (Option I64))
  | deleteGroup (id : GroupId)

/-- The operations with one transaction. -/
inductive AtomicOp where
  | object (op : ObjectOp)
  | purgeTombstones
  | mergeRemote (changes : List RemoteChange)

/-- The public operations that change a vault. -/
inductive Op where
  | atomic (op : AtomicOp)
  | sweepTrash
  | rotateEpoch
  | rewrapToCurrentEpoch (limit : Nat)

variable {S : Type} [VaultStore S] (E : Externals) (amb : Ambient)

open Vault

omit [VaultStore S] in
/-- An operation whose return value is dropped. -/
def dropping {α : Type} (x : Io (Vault S) α) : Io (Vault S) Unit := x >>= fun _ => pure ()

/-- The public function, its return value dropped. -/
def ObjectOp.run : ObjectOp → Io (Vault S) Unit
  | add new => dropping (Vault.add E amb new)
  | mergeDuplicate existing new => Vault.mergeDuplicate E amb existing new
  | update id edit => Vault.update E amb id edit
  | addTag id tag => Vault.addTag E amb id tag
  | removeTag id tag => Vault.removeTag E amb id tag
  | addOrigin id origin => Vault.addOrigin E amb id origin
  | removeOrigin id origin => Vault.removeOrigin E amb id origin
  | addToGroup id g => Vault.addToGroup E amb id g
  | removeFromGroup id g => Vault.removeFromGroup E amb id g
  | recordUse id => Vault.recordUse E amb id
  | advanceHotpCounter id => dropping (Vault.advanceHotpCounter E amb id)
  | setHotpCounter id counter => dropping (Vault.setHotpCounter E amb id counter)
  | repairSecret id secret => Vault.repairSecret E amb id secret
  | trashItem id => Vault.trashItem E amb id
  | restoreItem id => Vault.restoreItem E amb id
  | deleteItem id => Vault.deleteItem E amb id
  | addGroup name => dropping (Vault.addGroup E amb name)
  | updateGroup id name color manualOrder => Vault.updateGroup E amb id name color manualOrder
  | deleteGroup id => Vault.deleteGroup E amb id

/-- The public function, its return value dropped. -/
def AtomicOp.run : AtomicOp → Io (Vault S) Unit
  | object op => op.run E amb
  | purgeTombstones => dropping (Vault.purgeTombstones amb)
  | mergeRemote changes => dropping (Vault.mergeRemote E amb changes)

/-- The public function, its return value dropped. -/
def Op.run : Op → Io (Vault S) Unit
  | atomic op => op.run E amb
  | sweepTrash => dropping (Vault.sweepTrash E amb)
  | rotateEpoch => dropping Vault.rotateEpoch
  | rewrapToCurrentEpoch limit => dropping (Vault.rewrapToCurrentEpoch E amb limit)

/-! ## One transaction -/

omit [VaultStore S] in
/-- The copy an operation commits. -/
def ObjectOp.draft : ObjectOp → Io (Vault S) Decoded
  | add new => Decoded.item <$> added E amb new
  | mergeDuplicate existing new => Decoded.item <$> duplicated amb existing new
  | update id edit => Decoded.item <$> updated E amb id edit
  | addTag id tag => Decoded.item <$> tagAdded amb id tag
  | removeTag id tag =>
    Decoded.item <$> mutated id (amb.clock 0) (fun x hlc => .ok { x with tags := x.tags.remove tag hlc })
  | addOrigin id origin => Decoded.item <$> originAdded E amb id origin
  | removeOrigin id origin =>
    Decoded.item <$> mutated id (amb.clock 0)
      (fun x hlc => .ok { x with origins := x.origins.remove (E.toLowercase (trim origin)) hlc })
  | addToGroup id g => Decoded.item <$> groupAdded amb id g
  | removeFromGroup id g =>
    Decoded.item <$> mutated id (amb.clock 0) (fun x hlc => .ok { x with groups := x.groups.remove g hlc })
  | recordUse id => Decoded.item <$> used amb id
  | advanceHotpCounter id => (fun p => Decoded.item p.1) <$> counterAdvanced id
  | setHotpCounter id counter => Decoded.item <$> counterSet id counter
  | repairSecret id secret => Decoded.item <$> secretRepaired id secret
  | trashItem id =>
    Decoded.item <$> mutated id (amb.clock 1)
      (fun x hlc => .ok { x with trashedAt := x.trashedAt.set (some (nowMs (amb.clock 0))) hlc })
  | restoreItem id =>
    Decoded.item <$> mutated id (amb.clock 0)
      (fun x hlc => .ok { x with trashedAt := x.trashedAt.set none hlc })
  | deleteItem id => Decoded.item <$> mutated id (amb.clock 0) (fun x hlc => .ok (buried .user x hlc))
  | addGroup name => Decoded.group <$> groupCreated amb name
  | updateGroup id name color manualOrder => Decoded.group <$> groupUpdated amb id name color manualOrder
  | deleteGroup id => Decoded.group <$> groupDeleted amb id

/-- What an operation has in hand when it reaches its transaction. -/
def AtomicOp.staged : AtomicOp → Io (Vault S) (Staged S)
  | object op => op.draft E amb >>= Vault.staged E amb
  | purgeTombstones => purgeStaged amb
  | mergeRemote changes => Prod.fst <$> mergeStaged E amb changes

theorem ObjectOp.run_eq (op : ObjectOp) :
    (op.run E amb : Io (Vault S) Unit) = op.draft E amb >>= commit E amb := by
  cases op <;>
    simp [ObjectOp.run, ObjectOp.draft, Vault.add, Vault.mergeDuplicate, Vault.update, Vault.addTag,
      Vault.removeTag, Vault.addOrigin, Vault.removeOrigin, Vault.addToGroup, Vault.removeFromGroup,
      Vault.recordUse, Vault.advanceHotpCounter, Vault.setHotpCounter, Vault.repairSecret,
      Vault.trashItem, Vault.restoreItem, Vault.deleteItem, Vault.addGroup, Vault.updateGroup,
      Vault.deleteGroup, mutateItem, commitItem, commitGroup, dropping]

theorem AtomicOp.run_eq (op : AtomicOp) :
    (op.run E amb : Io (Vault S) Unit) = op.staged E amb >>= settle := by
  cases op with
  | object op =>
    rw [AtomicOp.run, AtomicOp.staged, ObjectOp.run_eq, bind_assoc]
    rfl
  | purgeTombstones => simp [AtomicOp.run, AtomicOp.staged, Vault.purgeTombstones, purgeStaged, dropping]
  | mergeRemote changes => simp [AtomicOp.run, AtomicOp.staged, Vault.mergeRemote, dropping]

end Misty
