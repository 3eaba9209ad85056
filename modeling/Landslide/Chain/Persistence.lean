import Landslide.Chain.Acceptance

/-! # What an acceptance leaves on disk

The stores after the writes of an acceptance have been replayed: what a finished one
adds, what an unfinished one may add, and what pruning leaves alone.
-/
namespace Landslide
variable {H : Type}

/-- What pruning leaves alone. The block store refuses to prune beyond its height, so
the validator sets from that height on stay. -/
structure Pruned (bs : BlockStore H) (d d' : Disk H) : Prop where
  state : d'.stateStore.state = d.stateStore.state
  appHeight : d'.appHeight = d.appHeight
  blocks : d'.blockStore.blocks = d.blockStore.blocks
  height : d'.blockStore.height = d.blockStore.height
  base : d'.blockStore.base = d.blockStore.base ∨
    (bs.base < d'.blockStore.base ∧ d'.blockStore.base ≤ bs.height)
  validators : ∀ h, bs.height ≤ h → d'.stateStore.validators h = d.stateStore.validators h

theorem pruneLog_cases (env : AcceptEnv H) (bs : BlockStore H) (retainHeight : ℤ) :
    pruneLog env bs retainHeight = [] ∨
    (bs.base < retainHeight ∧ retainHeight ≤ bs.height ∧
      (pruneLog env bs retainHeight = [.pruneBlocks retainHeight] ∨
        pruneLog env bs retainHeight =
          [.pruneBlocks retainHeight,.pruneStates bs.base retainHeight])) := by
  unfold pruneLog pruneBlocks
  by_cases hpos : retainHeight > 0
  · rw [if_pos hpos]
    by_cases hbase : retainHeight ≤ bs.base
    · exact .inl (by rw [if_pos hbase]; rfl)
    · rw [if_neg hbase]
      by_cases hheight : retainHeight > bs.height
      · exact .inl (by simp [refuse,hheight])
      · cases hb : env.pruneBlocks with
        | some e => exact .inl (by simp [refuse,hheight])
        | none =>
          refine .inr ⟨by omega,by omega,?_⟩
          cases hs : env.pruneStates with
          | some e => exact .inl (by simp [refuse,hheight])
          | none => exact .inr (by simp [refuse,hheight])
  · exact .inl (by rw [if_neg hpos])

theorem replay_pruneLog (env : AcceptEnv H) (bs : BlockStore H) (retainHeight : ℤ) (d : Disk H) :
    Pruned bs d (d.replay (pruneLog env bs retainHeight)) := by
  rcases pruneLog_cases env bs retainHeight with h | ⟨hbase,hheight,h | h⟩
  · rw [h]
    exact ⟨rfl,rfl,rfl,rfl,.inl rfl,fun _ _ => rfl⟩
  · rw [h]
    exact ⟨rfl,rfl,rfl,rfl,.inr ⟨hbase,hheight⟩,fun _ _ => rfl⟩
  · rw [h]
    refine ⟨rfl,rfl,rfl,rfl,.inr ⟨hbase,hheight⟩,?_⟩
    intro k hk
    have hout : ¬(bs.base ≤ k ∧ k < retainHeight) := by omega
    simp [Disk.apply,hout]

structure Applied (disk d : Disk H) (b : Block H) (next : State H) : Prop where
  state : d.stateStore.state = next
  appHeight : d.appHeight = b.header.height
  blocks : d.blockStore.blocks = disk.blockStore.blocks
  height : d.blockStore.height = disk.blockStore.height
  base : d.blockStore.base = disk.blockStore.base ∨
    (disk.blockStore.base < d.blockStore.base ∧ d.blockStore.base ≤ disk.blockStore.height)
  validators : ∀ h, disk.blockStore.height ≤ h →
    d.stateStore.validators h = (disk.stateStore.save next).validators h

theorem replay_appliedLog (env : AcceptEnv H) (disk : Disk H) (b : Block H)
    (resp : ResponseFinalizeBlock) (next : State H) (retainHeight : ℤ) :
    Applied disk (disk.replay (appliedLog env disk.blockStore b resp next retainHeight)) b next := by
  have hp := replay_pruneLog env disk.blockStore retainHeight
    (((disk.apply (.finalizeBlockResponse b.header.height resp)).apply
      (.appCommit b.header.height)).apply (.state next))
  refine ⟨hp.state.trans (Disk.save_state _ _),hp.appHeight,hp.blocks,hp.height,hp.base,?_⟩
  intro h hh
  rw [appliedLog,Disk.replay_cons,Disk.replay_cons,Disk.replay_cons,hp.validators h hh]
  simp only [Disk.apply,StateStore.save]
  split <;> rfl

structure Persisted (disk d : Disk H) (sb : StoredBlock H) (next : State H) : Prop where
  state : d.stateStore.state = next
  appHeight : d.appHeight = sb.block.header.height
  blocks : d.blockStore.blocks = sb :: disk.blockStore.blocks
  height : d.blockStore.height = sb.block.header.height
  base : (disk.blockStore.base = 0 → d.blockStore.base = sb.block.header.height ∨
      (0 < d.blockStore.base ∧ d.blockStore.base ≤ disk.blockStore.height)) ∧
    (disk.blockStore.base ≠ 0 → d.blockStore.base = disk.blockStore.base ∨
      (disk.blockStore.base < d.blockStore.base ∧ d.blockStore.base ≤ disk.blockStore.height))
  validators : ∀ h, disk.blockStore.height ≤ h →
    d.stateStore.validators h = (disk.stateStore.save next).validators h

theorem Applied.save {disk d : Disk H} (sb : StoredBlock H) {next : State H}
    (h : Applied disk d sb.block next) (hbase : 0 ≤ disk.blockStore.base) :
    Persisted disk (d.apply (.block sb)) sb next := by
  refine ⟨h.state,h.appHeight,congrArg (sb :: ·) h.blocks,rfl,⟨?_,?_⟩,h.validators⟩
  · intro h0
    rcases h.base with hb | ⟨hlt,hle⟩
    · have hz : d.blockStore.base = 0 := hb.trans h0
      exact .inl (by simp [Disk.apply,BlockStore.save,hz])
    · have hz : d.blockStore.base ≠ 0 := by omega
      have hs : (d.apply (.block sb)).blockStore.base = d.blockStore.base := by
        simp [Disk.apply,BlockStore.save,hz]
      exact .inr ⟨by omega,by omega⟩
  · intro h0
    have hz : d.blockStore.base ≠ 0 := by
      rcases h.base with hb | ⟨hlt,_⟩
      · omega
      · omega
    have hs : (d.apply (.block sb)).blockStore.base = d.blockStore.base := by
      simp [Disk.apply,BlockStore.save,hz]
    rw [hs]
    exact h.base

theorem StateStore.save_validators_twice (st st' : StateStore H) (s : State H) {h : ℤ}
    (hv : st'.validators h = (st.save s).validators h) :
    (st'.save s).validators h = (st.save s).validators h := by
  unfold StateStore.save at hv ⊢
  by_cases hone : s.lastBlockHeight + 1 = 1
  · rw [if_pos hone] at hv
    rw [if_pos hone,if_pos hone]
    simp only [Function.update_apply] at hv ⊢
    split
    · rfl
    · next h1 =>
      split
      · rfl
      · next h2 => simpa [h1,h2] using hv
  · rw [if_neg hone] at hv
    rw [if_neg hone,if_neg hone]
    simp only [Function.update_apply] at hv ⊢
    split
    · rfl
    · next h1 => simpa [h1] using hv

theorem Persisted.saveState {disk d : Disk H} {sb : StoredBlock H} {next : State H}
    (h : Persisted disk d sb next) : Persisted disk (d.apply (.state next)) sb next :=
  ⟨Disk.save_state _ _,h.appHeight,h.blocks,h.height,h.base,
    fun k hk => StateStore.save_validators_twice _ _ _ (h.validators k hk)⟩

section
variable [DecidableEq H] {C : CometBFT H} {env : AcceptEnv H} {disk : Disk H} {s : State H}
  {b : Block H}

/-- A successful acceptance has committed and saved the block, and the disk shows it. -/
theorem acceptBlock_ok {next : State H} (hbase : 0 ≤ disk.blockStore.base)
    (h : (acceptBlock C env disk s b).result = .ok next) :
    ∃ blockID resp retainHeight, Committed C env disk.stateStore s b blockID resp next retainHeight ∧
      disk.blockStore.saveError b (storedBlock s b blockID).seenCommit = none ∧
      Persisted disk (disk.replay (acceptBlock C env disk s b).log) (storedBlock s b blockID)
        next := by
  have hacc := acceptBlock_accepts C env disk s b
  generalize acceptBlock C env disk s b = m at h hacc
  cases hacc with
  | stopped hr hc hlog => exact absurd h (hr next)
  | unsaved hc hf => cases h
  | refused hc hp => cases h
  | unfinished hc hs he => cases h
  | @done blockID resp next' retainHeight hc hs =>
    cases h
    have happ := replay_appliedLog env disk b resp next retainHeight
    have hsave := Applied.save (storedBlock s b blockID) happ hbase
    refine ⟨blockID,resp,retainHeight,hc,hs,?_⟩
    rw [Disk.replay_append]
    exact hsave.saveState

/-- What an acceptance that did not succeed can have done to the block store. -/
inductive Leftover (C : CometBFT H) (env : AcceptEnv H) (disk : Disk H) (s : State H) (b : Block H)
    (d : Disk H) : Prop
  | unsaved (hblocks : d.blockStore.blocks = disk.blockStore.blocks)
      (hheight : d.blockStore.height = disk.blockStore.height)
      (hbase : d.blockStore.base = disk.blockStore.base ∨
        (disk.blockStore.base < d.blockStore.base ∧ d.blockStore.base ≤ disk.blockStore.height))
  | saved (blockID : BlockID H) (next : State H) (resp : ResponseFinalizeBlock) (retainHeight : ℤ)
      (hc : Committed C env disk.stateStore s b blockID resp next retainHeight)
      (hfail : env.saveStateAgain ≠ none)
      (hp : Persisted disk d (storedBlock s b blockID) next)

theorem acceptBlock_not_ok (hbase : 0 ≤ disk.blockStore.base)
    (h : ∀ next, (acceptBlock C env disk s b).result ≠ .ok next) :
    Leftover C env disk s b (disk.replay (acceptBlock C env disk s b).log) := by
  have hacc := acceptBlock_accepts C env disk s b
  generalize acceptBlock C env disk s b = m at h hacc
  cases hacc with
  | stopped hr hc hlog =>
    rcases hlog with rfl | ⟨resp,rfl⟩
    · exact .unsaved rfl rfl (.inl rfl)
    · exact .unsaved rfl rfl (.inl rfl)
  | unsaved hc hf => exact .unsaved rfl rfl (.inl rfl)
  | @refused blockID resp next retainHeight p hc hp =>
    have happ := replay_appliedLog env disk b resp next retainHeight
    exact .unsaved happ.blocks happ.height happ.base
  | @unfinished blockID resp next retainHeight e hc hs he =>
    have happ := replay_appliedLog env disk b resp next retainHeight
    have hsave := Applied.save (storedBlock s b blockID) happ hbase
    refine .saved blockID next resp retainHeight hc (by simp [he]) ?_
    rw [Disk.replay_append]
    exact hsave
  | @done blockID resp next retainHeight hc hs => exact absurd rfl (h next)

/-! ## Stored validators -/

/-- A write that changes the stored validators of one height at most, or prunes those
below a height. -/
def Write.KeepsValidators (height except : ℤ) : Write H → Prop
  | .state s => s.lastBlockHeight ≠ 0 ∧ s.lastBlockHeight + 2 = except
  | .pruneStates _ retainHeight => retainHeight ≤ height
  | _ => True

omit [DecidableEq H] in
theorem Write.KeepsValidators.apply {w : Write H} {height except h : ℤ}
    (hw : w.KeepsValidators height except) (hne : h ≠ except) (d : Disk H) :
    (height ≤ h → (d.apply w).stateStore.validators h = d.stateStore.validators h) ∧
      ((d.apply w).stateStore.validators h = d.stateStore.validators h ∨
        (d.apply w).stateStore.validators h = none) := by
  cases w with
  | state s =>
    obtain ⟨hs,he⟩ := hw
    have hone : ¬s.lastBlockHeight + 1 = 1 := by omega
    have hsave : (d.stateStore.save s).validators h = d.stateStore.validators h := by
      unfold StateStore.save
      rw [if_neg hone,he]
      exact Function.update_of_ne hne _ _
    exact ⟨fun _ => hsave,.inl hsave⟩
  | pruneStates base retainHeight =>
    by_cases hin : base ≤ h ∧ h < retainHeight
    · have hle : retainHeight ≤ height := hw
      exact ⟨fun hh => absurd hin.2 (by omega),.inr (if_pos hin)⟩
    · exact ⟨fun _ => if_neg hin,.inl (if_neg hin)⟩
  | _ => exact ⟨fun _ => rfl,.inl rfl⟩

omit [DecidableEq H] in
theorem replay_validators {log : List (Write H)} {height except h : ℤ}
    (hlog : ∀ w ∈ log, w.KeepsValidators height except) (hne : h ≠ except) (d : Disk H) :
    (height ≤ h → (d.replay log).stateStore.validators h = d.stateStore.validators h) ∧
      ((d.replay log).stateStore.validators h = d.stateStore.validators h ∨
        (d.replay log).stateStore.validators h = none) := by
  induction log generalizing d with
  | nil => exact ⟨fun _ => rfl,.inl rfl⟩
  | cons w log ih =>
    have hw := (hlog w List.mem_cons_self).apply hne d
    have hrest := ih (fun w' hw' => hlog w' (List.mem_cons_of_mem w hw')) (d.apply w)
    rw [Disk.replay_cons]
    refine ⟨fun hh => (hrest.1 hh).trans (hw.1 hh),?_⟩
    rcases hrest.2 with hr | hr
    · rw [hr]
      exact hw.2
    · exact .inr hr

/-- An acceptance stores validators two heights above its block, and prunes below the
height of the block store only. -/
theorem acceptBlock_keepsValidators (hB : C.BlockRules) {except : ℤ}
    (hex : BlockValid C s b → b.header.height + 2 = except) :
    ∀ w ∈ (acceptBlock C env disk s b).log, w.KeepsValidators disk.blockStore.height except := by
  have hacc := acceptBlock_accepts C env disk s b
  generalize acceptBlock C env disk s b = m at hacc
  have hstate : ∀ {blockID resp next retainHeight},
      Committed C env disk.stateStore s b blockID resp next retainHeight →
      (Write.state next).KeepsValidators disk.blockStore.height except := by
    intro blockID resp next retainHeight hc
    have hpos := ((hB.validateBasic_iff b).mp hc.valid.basic).height
    have hheight := hc.follows.lastBlockHeight
    exact ⟨by omega,by rw [hheight]; exact hex hc.valid⟩
  have hprune : ∀ retainHeight, ∀ w ∈ pruneLog env disk.blockStore retainHeight,
      w.KeepsValidators disk.blockStore.height except := by
    intro retainHeight w hw
    rcases pruneLog_cases env disk.blockStore retainHeight with hl | ⟨_,hle,hl | hl⟩
    · simp [hl] at hw
    · simp only [hl,List.mem_singleton] at hw
      subst hw
      trivial
    · simp only [hl,List.mem_cons,List.not_mem_nil,or_false] at hw
      rcases hw with rfl | rfl
      · trivial
      · exact hle
  have happlied : ∀ {blockID resp next retainHeight},
      Committed C env disk.stateStore s b blockID resp next retainHeight →
      ∀ w ∈ appliedLog env disk.blockStore b resp next retainHeight,
        w.KeepsValidators disk.blockStore.height except := by
    intro blockID resp next retainHeight hc w hw
    simp only [appliedLog,List.mem_cons] at hw
    rcases hw with rfl | rfl | rfl | hw
    · trivial
    · trivial
    · exact hstate hc
    · exact hprune _ w hw
  cases hacc with
  | stopped hr hc hlog =>
    rcases hlog with rfl | ⟨resp,rfl⟩
    · simp
    · simp [Write.KeepsValidators]
  | unsaved hc hf => simp [Write.KeepsValidators]
  | refused hc hp => exact happlied hc
  | unfinished hc hs he =>
    intro w hw
    rcases List.mem_append.mp hw with hw | hw
    · exact happlied hc w hw
    · rw [List.mem_singleton.mp hw]
      trivial
  | done hc hs =>
    intro w hw
    simp only [List.mem_append,List.mem_cons,List.not_mem_nil,or_false] at hw
    rcases hw with hw | rfl | rfl
    · exact happlied hc w hw
    · trivial
    · exact hstate hc

end
end Landslide
