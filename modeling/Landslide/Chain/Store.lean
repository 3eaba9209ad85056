import Landslide.Comet.Interface
import Landslide.Lib.Exec

/-! # Durable state

What is assumed of CometBFT's state store and block store and of the application's own
database: a save keeps what it is given, pruning takes away what is below a height, and a
write that fails leaves nothing behind. A write is one call that reaches the disk; the
stores change by replaying the writes that were issued.
-/
namespace Landslide
variable {H : Type}

structure StateStore (H : Type) where
  state : State H
  /-- The validator set recorded for a height, as `LoadValidators` returns it. -/
  validators : ℤ → Option ValidatorSet
  responses : List (ℤ × ResponseFinalizeBlock)

/-- `Store.Save`: the next validators are recorded two heights ahead of the last
block, and the first save also records the validators of the initial height. -/
def StateStore.save (st : StateStore H) (s : State H) : StateStore H :=
  if s.lastBlockHeight + 1 = 1 then
    { st with
      state := s
      validators := Function.update
        (Function.update st.validators s.initialHeight (some s.validators))
        (s.initialHeight + 1) (some s.nextValidators) }
  else
    { st with
      state := s
      validators := Function.update st.validators (s.lastBlockHeight + 2) (some s.nextValidators) }

def State.nextHeight (s : State H) : ℤ :=
  if s.lastBlockHeight = 0 then s.initialHeight else s.lastBlockHeight + 1

theorem State.nextHeight_of_pos {s : State H} (h : 0 < s.lastBlockHeight) :
    s.nextHeight = s.lastBlockHeight + 1 := if_neg h.ne'

structure ValidatorsStored (store : StateStore H) (s : State H) : Prop where
  nonneg : 0 ≤ s.lastBlockHeight
  last : 0 < s.lastBlockHeight → store.validators s.lastBlockHeight = some s.lastValidators
  current : store.validators s.nextHeight = some s.validators
  next : store.validators (s.nextHeight + 1) = some s.nextValidators

structure StoredBlock (H : Type) where
  block : Block H
  blockID : BlockID H
  seenCommit : Commit H
  deriving DecidableEq

/-- Every block ever saved, newest first. Pruning moves `base` up; the blocks below
it can no longer be loaded. An empty store has base and height zero. -/
structure BlockStore (H : Type) where
  base : ℤ
  height : ℤ
  blocks : List (StoredBlock H)

namespace BlockStore

def empty : BlockStore H := ⟨0,0,[]⟩

def held (bs : BlockStore H) : List (StoredBlock H) :=
  bs.blocks.filter (fun sb => bs.base ≤ sb.block.header.height)

def loadBlock (bs : BlockStore H) (height : ℤ) : Option (Block H) :=
  (bs.held.find? (fun sb => sb.block.header.height = height)).map StoredBlock.block

def loadBlockByHash [DecidableEq H] (C : CometBFT H) (bs : BlockStore H) (id : H) :
    Option (Block H) :=
  (bs.held.find? (fun sb => C.hash sb.block = some id)).map StoredBlock.block

def saveError (bs : BlockStore H) (b : Block H) (seenCommit : Commit H) : Option String :=
  if bs.base > 0 ∧ b.header.height ≠ bs.height + 1 then
    some "BlockStore can only save contiguous blocks. Wanted %v, got %v"
  else if b.header.height ≠ seenCommit.height then
    some "BlockStore cannot save seen commit of a different height (block: %d, commit: %d)"
  else none

def save (bs : BlockStore H) (sb : StoredBlock H) : BlockStore H where
  base := if bs.base = 0 then sb.block.header.height else bs.base
  height := sb.block.header.height
  blocks := sb :: bs.blocks

theorem mem_held_iff {bs : BlockStore H} {sb : StoredBlock H} :
    sb ∈ bs.held ↔ sb ∈ bs.blocks ∧ bs.base ≤ sb.block.header.height := by
  simp [held]

theorem loadBlock_eq_some {bs : BlockStore H} {height : ℤ} {b : Block H}
    (h : bs.loadBlock height = some b) :
    ∃ sb ∈ bs.held, sb.block = b ∧ b.header.height = height := by
  obtain ⟨sb,hf,rfl⟩ := Option.map_eq_some_iff.mp h
  have hm := List.mem_of_find?_eq_some hf
  have hp := List.find?_some hf
  exact ⟨sb,hm,rfl,by simpa using hp⟩

theorem loadBlockByHash_eq_some [DecidableEq H] {C : CometBFT H} {bs : BlockStore H} {id : H}
    {b : Block H} (h : bs.loadBlockByHash C id = some b) :
    ∃ sb ∈ bs.held, sb.block = b ∧ C.hash b = some id := by
  obtain ⟨sb,hf,rfl⟩ := Option.map_eq_some_iff.mp h
  have hm := List.mem_of_find?_eq_some hf
  have hp := List.find?_some hf
  exact ⟨sb,hm,rfl,by simpa using hp⟩

theorem loadBlockByHash_isSome [DecidableEq H] {C : CometBFT H} {bs : BlockStore H} {id : H}
    {sb : StoredBlock H} (h : sb ∈ bs.held) (hid : C.hash sb.block = some id) :
    ∃ b, bs.loadBlockByHash C id = some b := by
  cases hf : bs.held.find? (fun sb => C.hash sb.block = some id) with
  | none =>
    have hn := List.find?_eq_none.mp hf sb h
    simp [hid] at hn
  | some sb' => exact ⟨sb'.block,by simp [loadBlockByHash,hf]⟩

end BlockStore

structure Disk (H : Type) where
  stateStore : StateStore H
  blockStore : BlockStore H
  /-- The height of the last block the application has committed. -/
  appHeight : ℤ

/-- The durable writes of block acceptance. -/
inductive Write (H : Type) where
  | finalizeBlockResponse (height : ℤ) (resp : ResponseFinalizeBlock)
  | appCommit (height : ℤ)
  | state (s : State H)
  | pruneBlocks (retainHeight : ℤ)
  | pruneStates (base retainHeight : ℤ)
  | block (sb : StoredBlock H)
  deriving DecidableEq

def Disk.apply (d : Disk H) : Write H → Disk H
  | .finalizeBlockResponse height resp =>
    { d with stateStore :=
      { d.stateStore with responses := (height,resp) :: d.stateStore.responses } }
  | .appCommit height => { d with appHeight := height }
  | .state s => { d with stateStore := d.stateStore.save s }
  | .pruneBlocks retainHeight =>
    { d with blockStore := { d.blockStore with base := retainHeight } }
  | .pruneStates base retainHeight =>
    { d with stateStore :=
      { d.stateStore with validators := fun h =>
        if base ≤ h ∧ h < retainHeight then none else d.stateStore.validators h } }
  | .block sb => { d with blockStore := d.blockStore.save sb }

def Disk.replay (d : Disk H) (log : List (Write H)) : Disk H := Exec.replay Disk.apply d log

namespace Disk

@[simp] theorem replay_nil (d : Disk H) : d.replay [] = d := rfl
@[simp] theorem replay_cons (d : Disk H) (w : Write H) (log : List (Write H)) :
    d.replay (w :: log) = (d.apply w).replay log := rfl
theorem replay_append (d : Disk H) (l₁ l₂ : List (Write H)) :
    d.replay (l₁ ++ l₂) = (d.replay l₁).replay l₂ := Exec.replay_append ..

@[simp] theorem save_state (st : StateStore H) (s : State H) : (st.save s).state = s := by
  unfold StateStore.save
  split <;> rfl

end Disk

end Landslide
