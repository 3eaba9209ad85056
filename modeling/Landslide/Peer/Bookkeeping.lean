import Landslide.Peer.Network

/-! # Bookkeeping of the requests

The handlers that are registered are those of the requests still to be answered, and the slots
that are taken are theirs and those of calls on their way. Both are invariants of the shared
state and the traits of all calls, kept by each effect that a step can have.
-/
namespace Landslide.Peer

/-! ## The invariant -/

def requestIDOf (number : ℕ) : UInt32 := UInt32.ofNat (2 * number)

theorem requestIDOf_succ (number : ℕ) : requestIDOf (number + 1) = requestIDOf number + 2 := by
  rw [requestIDOf,requestIDOf,Nat.mul_add,UInt32.ofNat_add]
  rfl

theorem requestIDOf_even (number : ℕ) : (requestIDOf number).toNat % 2 = 0 := by
  rw [requestIDOf,UInt32.toNat_ofNat']
  omega

theorem requestIDOf_ne {m k : ℕ} (hlt : m < k) (hnear : k - m < 2 ^ 31) :
    requestIDOf m ≠ requestIDOf k := by
  intro h
  have hnat := congrArg UInt32.toNat h
  rw [requestIDOf,requestIDOf,UInt32.toNat_ofNat',UInt32.toNat_ofNat'] at hnat
  omega

section
variable (s : Shared) (t : ℕ → Traits)

def Awaits (i : ℕ) (requestID : UInt32) (number : ℕ) : Prop :=
  (t i).request = some (requestID,number) ∧ ∀ r requestID', (t r).taken ≠ some (i,requestID')

structure Numbered : Prop where
  requestIDGen : s.requestIDGen = requestIDOf s.issued
  request : ∀ i requestID number, (t i).request = some (requestID,number) →
    requestID = requestIDOf number ∧ number < s.issued
  inj : ∀ i j requestID requestID' number, (t i).request = some (requestID,number) →
    (t j).request = some (requestID',number) → i = j

structure Registered : Prop where
  handler_iff : ∀ requestID handler,
    s.outstandingRequestHandlers.lookup requestID = some handler ↔
      ∃ number, Awaits t handler requestID number
  taken_unique : ∀ r r' handler requestID requestID', (t r).taken = some (handler,requestID) →
    (t r').taken = some (handler,requestID') → r = r'
  taken_accepted : ∀ r handler requestID, (t r).taken = some (handler,requestID) →
    (t handler).accepted = true ∧ ∃ number, (t handler).request = some (requestID,number)

structure Exclusive : Prop where
  lock_iff : ∀ i, (t i).locks = true ↔ s.lock = some i
  unaccepted : ∀ i, (t i).request ≠ none → (t i).accepted = false → (t i).locks = true
  returned : ∀ i, (t i).returned ≠ 0 → (t i).returned = 1 ∧ (t i).locks = true ∧
    (t i).accepted = false ∧ (t i).request ≠ none

structure Counted (started : ℕ) : Prop where
  slots : s.activeAppRequests + totalOf Traits.returned started t =
    s.outstandingRequestHandlers.keys.card + totalOf Traits.owned started t
  running : s.panicked = false

structure Consistent (started : ℕ) : Prop where
  numbered : Numbered s t
  registered : Registered s t
  exclusive : Exclusive s t
  counted : Counted s t started
  unstarted : ∀ i, started ≤ i → t i = ⟨false,0,0,none,false,none⟩

end

variable {s s' : Shared} {t : ℕ → Traits} {started i : ℕ} {x : Traits}

theorem update_trait {β : Type} (f : Traits → β) (h : f x = f (t i)) (j : ℕ) :
    f (Function.update t i x j) = f (t j) := by
  by_cases hj : j = i
  · rw [hj,Function.update_self,h]
  · rw [Function.update_of_ne hj]

/-! ## Numbers -/

theorem Numbered.frame (h : Numbered s t) (hgen : s'.requestIDGen = s.requestIDGen)
    (hissued : s'.issued = s.issued) (hrequest : x.request = (t i).request ∨ x.request = none) :
    Numbered s' (Function.update t i x) := by
  have hold : ∀ j request, (Function.update t i x j).request = some request →
      (t j).request = some request := by
    intro j request hj
    rcases hrequest with hx | hx
    · rwa [update_trait Traits.request hx] at hj
    · by_cases hji : j = i
      · rw [hji,Function.update_self,hx] at hj
        cases hj
      · rwa [Function.update_of_ne hji] at hj
  refine ⟨by rw [hgen,hissued,h.requestIDGen],fun j requestID number hj => ?_,
    fun j k requestID requestID' number hj hk => ?_⟩
  · rw [hissued]
    exact h.request j requestID number (hold j _ hj)
  · exact h.inj j k requestID requestID' number (hold j _ hj) (hold k _ hk)

theorem Numbered.register (h : Numbered s t) (hx : x.request = some (s.requestIDGen,s.issued)) :
    Numbered (s.register i) (Function.update t i x) := by
  have hcases : ∀ j requestID number,
      (Function.update t i x j).request = some (requestID,number) →
        j = i ∧ requestID = s.requestIDGen ∧ number = s.issued ∨
          j ≠ i ∧ (t j).request = some (requestID,number) := by
    intro j requestID number hj
    by_cases hji : j = i
    · rw [hji,Function.update_self,hx] at hj
      cases hj
      exact Or.inl ⟨hji,rfl,rfl⟩
    · rw [Function.update_of_ne hji] at hj
      exact Or.inr ⟨hji,hj⟩
  refine ⟨?_,fun j requestID number hj => ?_,fun j k requestID requestID' number hj hk => ?_⟩
  · change s.requestIDGen + 2 = requestIDOf (s.issued + 1)
    rw [requestIDOf_succ,h.requestIDGen]
  · change _ ∧ number < s.issued + 1
    rcases hcases j requestID number hj with ⟨-,rfl,rfl⟩ | ⟨-,hj⟩
    · exact ⟨h.requestIDGen,Nat.lt_succ_self _⟩
    · exact ⟨(h.request j _ _ hj).1,(h.request j _ _ hj).2.trans (Nat.lt_succ_self _)⟩
  · rcases hcases j _ _ hj with ⟨rfl,-,rfl⟩ | ⟨-,hj'⟩
    · rcases hcases k _ _ hk with ⟨rfl,-,-⟩ | ⟨-,hk'⟩
      · rfl
      · exact absurd (h.request k _ _ hk').2 (lt_irrefl _)
    · rcases hcases k _ _ hk with ⟨rfl,-,rfl⟩ | ⟨-,hk'⟩
      · exact absurd (h.request j _ _ hj').2 (lt_irrefl _)
      · exact h.inj j k _ _ _ hj' hk'

/-! ## Handlers -/

theorem Registered.not_taken (h : Registered s t) (hi : (t i).accepted = false) (r : ℕ)
    (requestID : UInt32) : (t r).taken ≠ some (i,requestID) := by
  intro hr
  rw [(h.taken_accepted r i requestID hr).1] at hi
  cases hi

theorem Registered.awaits_inj (h : Registered s t) {j : ℕ} {requestID : UInt32} {m k : ℕ}
    (hi : Awaits t i requestID m) (hj : Awaits t j requestID k) : i = j := by
  have hlookup := (h.handler_iff requestID i).mpr ⟨m,hi⟩
  rw [(h.handler_iff requestID j).mpr ⟨k,hj⟩] at hlookup
  exact (Option.some.inj hlookup).symm

theorem Registered.frame (h : Registered s t)
    (hmap : s'.outstandingRequestHandlers = s.outstandingRequestHandlers)
    (hrequest : x.request = (t i).request) (htaken : x.taken = (t i).taken)
    (haccepted : (t i).accepted = true → x.accepted = true) :
    Registered s' (Function.update t i x) := by
  have hr := update_trait Traits.request hrequest
  have ht := update_trait Traits.taken htaken
  refine ⟨fun requestID handler => ?_,?_,fun r handler requestID htaken => ?_⟩
  · unfold Awaits
    simp only [hr,ht,hmap]
    exact h.handler_iff requestID handler
  · simp only [ht]
    exact h.taken_unique
  · rw [ht] at htaken
    obtain ⟨hacc,hreq⟩ := h.taken_accepted r handler requestID htaken
    refine ⟨?_,by rwa [hr]⟩
    by_cases hj : handler = i
    · subst hj
      rw [Function.update_self]
      exact haccepted hacc
    · rwa [Function.update_of_ne hj]

theorem Registered.register (h : Registered s t) (hi : t i = ⟨true,1,0,none,false,none⟩)
    (hfree : s.outstandingRequestHandlers.lookup s.requestIDGen = none) :
    Registered (s.register i)
      (Function.update t i ⟨true,0,0,some (s.requestIDGen,s.issued),false,none⟩) := by
  set x : Traits := ⟨true,0,0,some (s.requestIDGen,s.issued),false,none⟩
  have hnone : x.taken = (t i).taken := by rw [hi]
  have htaken := update_trait Traits.taken hnone
  have hother {j : ℕ} (hj : j ≠ i) : Function.update t i x j = t j := Function.update_of_ne hj _ _
  refine ⟨fun requestID handler => ?_,?_,fun r handler requestID hr => ?_⟩
  · unfold Awaits
    simp only [htaken]
    change (s.outstandingRequestHandlers.insert s.requestIDGen i).lookup requestID = _ ↔ _
    by_cases hhandler : handler = i
    · subst hhandler
      have hunaccepted : (t handler).accepted = false := by rw [hi]
      have hnot := h.not_taken hunaccepted
      rw [Function.update_self]
      by_cases hID : requestID = s.requestIDGen
      · subst hID
        rw [Finmap.lookup_insert]
        exact ⟨fun _ => ⟨s.issued,rfl,hnot⟩,fun _ => rfl⟩
      · rw [Finmap.lookup_insert_of_ne _ hID,h.handler_iff]
        constructor
        · rintro ⟨number,hrequest,-⟩
          rw [hi] at hrequest
          cases hrequest
        · rintro ⟨number,hrequest,-⟩
          cases hrequest
          exact absurd rfl hID
    · rw [hother hhandler]
      by_cases hID : requestID = s.requestIDGen
      · subst hID
        rw [Finmap.lookup_insert]
        refine ⟨fun heq => absurd (Option.some.inj heq).symm hhandler,fun hawaits => ?_⟩
        have hlookup := (h.handler_iff _ handler).mpr hawaits
        rw [hfree] at hlookup
        cases hlookup
      · rw [Finmap.lookup_insert_of_ne _ hID]
        exact h.handler_iff requestID handler
  · simp only [htaken]
    exact h.taken_unique
  · rw [htaken] at hr
    have haccepted := h.taken_accepted r handler requestID hr
    have hne : handler ≠ i := by
      rintro rfl
      exact h.not_taken (by rw [hi]) r requestID hr
    rwa [hother hne]

theorem Registered.remove (h : Registered s t) {handler : ℕ} {requestID : UInt32} {number : ℕ}
    (hawaits : Awaits t handler requestID number) {t' : ℕ → Traits}
    (hother : ∀ j, j ≠ handler → ∀ requestID' number',
      Awaits t' j requestID' number' ↔ Awaits t j requestID' number')
    (hgone : ∀ requestID' number', ¬Awaits t' handler requestID' number') (requestID' : UInt32)
    (j : ℕ) : (s.remove requestID).outstandingRequestHandlers.lookup requestID' = some j ↔
      ∃ number, Awaits t' j requestID' number := by
  change (s.outstandingRequestHandlers.erase requestID).lookup requestID' = _ ↔ _
  by_cases hj : j = handler
  · subst hj
    refine ⟨fun hlookup => ?_,fun ⟨number',h'⟩ => absurd h' (hgone requestID' number')⟩
    by_cases hID : requestID' = requestID
    · rw [hID,Finmap.lookup_erase] at hlookup
      cases hlookup
    · rw [Finmap.lookup_erase_ne hID,h.handler_iff] at hlookup
      obtain ⟨number',hrequest,-⟩ := hlookup
      rw [hawaits.1] at hrequest
      cases hrequest
      exact absurd rfl hID
  · simp only [hother j hj]
    by_cases hID : requestID' = requestID
    · subst hID
      rw [Finmap.lookup_erase]
      exact ⟨fun h => (nomatch h),fun ⟨number',h'⟩ => absurd (h.awaits_inj h' hawaits) hj⟩
    · rw [Finmap.lookup_erase_ne hID]
      exact h.handler_iff requestID' j

theorem Registered.awaits_of_locked (h : Registered s t) {requestID : UInt32} {number : ℕ}
    (hrequest : (t i).request = some (requestID,number)) (haccepted : (t i).accepted = false) :
    Awaits t i requestID number :=
  ⟨hrequest,h.not_taken haccepted⟩

theorem Registered.removeFailed (h : Registered s t) {requestID : UInt32} {number : ℕ}
    (hrequest : (t i).request = some (requestID,number)) (haccepted : (t i).accepted = false)
    (htaken : (t i).taken = none) (hx : x.request = none) (hx' : x.taken = none) :
    Registered (s.remove requestID) (Function.update t i x) := by
  have ht := update_trait Traits.taken (hx'.trans htaken.symm)
  refine ⟨h.remove (h.awaits_of_locked hrequest haccepted) ?_ ?_,?_,fun r handler ID hr => ?_⟩
  · intro j hj ID number'
    unfold Awaits
    simp only [ht,Function.update_of_ne hj]
  · intro ID number' hawaits
    have hnone := hawaits.1
    rw [Function.update_self,hx] at hnone
    cases hnone
  · simp only [ht]
    exact h.taken_unique
  · rw [ht] at hr
    have hne : handler ≠ i := by
      rintro rfl
      exact h.not_taken haccepted r ID hr
    rw [Function.update_of_ne hne]
    exact h.taken_accepted r handler ID hr

theorem Registered.take (h : Registered s t) {requestID : UInt32} {handler : ℕ}
    (hlookup : s.outstandingRequestHandlers.lookup requestID = some handler)
    (haccepted : (t handler).accepted = true) (hi : (t i).taken = none)
    (hx : x.taken = some (handler,requestID)) (hrequest : x.request = (t i).request)
    (hx' : x.accepted = (t i).accepted) :
    Registered (s.remove requestID) (Function.update t i x) := by
  obtain ⟨number,hawaits⟩ := (h.handler_iff requestID handler).mp hlookup
  have hr := update_trait Traits.request hrequest
  have ha := update_trait Traits.accepted hx'
  have htaken : ∀ r j ID, (Function.update t i x r).taken = some (j,ID) ↔
      r = i ∧ j = handler ∧ ID = requestID ∨ r ≠ i ∧ (t r).taken = some (j,ID) := by
    intro r j ID
    by_cases hri : r = i
    · simp [hri,hx,eq_comm]
    · simp [hri]
  refine ⟨h.remove hawaits ?_ ?_,?_,fun r j ID hj => ?_⟩
  · intro j hj ID number'
    unfold Awaits
    rw [hr]
    refine and_congr_right fun _ => forall_congr' fun r => forall_congr' fun ID' => not_congr ?_
    rw [htaken]
    constructor
    · rintro (⟨-,rfl,-⟩ | ⟨-,htaken⟩)
      · exact absurd rfl hj
      · exact htaken
    · intro htaken
      refine Or.inr ⟨fun hri => ?_,htaken⟩
      rw [hri,hi] at htaken
      cases htaken
  · intro ID number' hnot
    exact hnot.2 i requestID ((htaken i handler requestID).mpr (Or.inl ⟨rfl,rfl,rfl⟩))
  · intro r r' j ID ID' hrj hrj'
    rcases (htaken r j ID).mp hrj with ⟨rfl,rfl,-⟩ | ⟨-,hold⟩
    · rcases (htaken r' j ID').mp hrj' with ⟨rfl,-,-⟩ | ⟨-,hold'⟩
      · rfl
      · exact absurd hold' (hawaits.2 r' ID')
    · rcases (htaken r' j ID').mp hrj' with ⟨rfl,rfl,-⟩ | ⟨-,hold'⟩
      · exact absurd hold (hawaits.2 r ID)
      · exact h.taken_unique r r' j ID ID' hold hold'
  · rw [ha,hr]
    rcases (htaken r j ID).mp hj with ⟨-,rfl,rfl⟩ | ⟨-,hold⟩
    · exact ⟨haccepted,number,hawaits.1⟩
    · exact h.taken_accepted r j ID hold

/-! ## The lock -/

theorem Exclusive.eq_of_locks (h : Exclusive s t) {j : ℕ} (hi : (t i).locks = true)
    (hj : (t j).locks = true) : j = i := by
  have hlock := (h.lock_iff j).mp hj
  rw [(h.lock_iff i).mp hi] at hlock
  exact (Option.some.inj hlock).symm

theorem Exclusive.update (h : Exclusive s t)
    (hlock : ∀ j, (Function.update t i x j).locks = true ↔ s'.lock = some j)
    (hunaccepted : x.request ≠ none → x.accepted = false → x.locks = true)
    (hreturned : x.returned ≠ 0 → x.returned = 1 ∧ x.locks = true ∧ x.accepted = false ∧
      x.request ≠ none) : Exclusive s' (Function.update t i x) := by
  refine ⟨hlock,fun j => ?_,fun j => ?_⟩
  · by_cases hj : j = i
    · rw [hj,Function.update_self]
      exact hunaccepted
    · rw [Function.update_of_ne hj]
      exact h.unaccepted j
  · by_cases hj : j = i
    · rw [hj,Function.update_self]
      exact hreturned
    · rw [Function.update_of_ne hj]
      exact h.returned j

theorem Exclusive.frame (h : Exclusive s t) (hlock : s'.lock = s.lock) (hlocks : x.locks = (t i).locks)
    (hunaccepted : x.request ≠ none → x.accepted = false → x.locks = true)
    (hreturned : x.returned ≠ 0 → x.returned = 1 ∧ x.locks = true ∧ x.accepted = false ∧
      x.request ≠ none) : Exclusive s' (Function.update t i x) := by
  refine h.update (fun j => ?_) hunaccepted hreturned
  rw [update_trait Traits.locks hlocks,hlock]
  exact h.lock_iff j

theorem Exclusive.lock (h : Exclusive s t) (hfree : s.lock = none) (hx : x.locks = true)
    (hx' : x.returned = 0) : Exclusive { s with lock := some i } (Function.update t i x) := by
  have hnone (j : ℕ) : ¬(t j).locks = true := by
    intro hj
    rw [h.lock_iff,hfree] at hj
    cases hj
  refine h.update (fun j => ?_) (fun _ _ => hx) fun hne => absurd hx' hne
  by_cases hj : j = i
  · simp [hj,hx]
  · rw [Function.update_of_ne hj]
    exact iff_of_false (hnone j) fun heq => hj (Option.some.inj heq).symm

theorem Exclusive.unlock (h : Exclusive s t) (hi : (t i).locks = true) (hx : x.locks = false)
    (hx' : x.returned = 0) (hrequest : x.accepted = false → x.request = none) :
    Exclusive { s with lock := none } (Function.update t i x) := by
  refine h.update (fun j => ?_) (fun hne haccepted => absurd (hrequest haccepted) hne)
    fun hne => absurd hx' hne
  by_cases hj : j = i
  · simp [hj,hx]
  · rw [Function.update_of_ne hj]
    exact iff_of_false (fun hlocks => hj (h.eq_of_locks hi hlocks)) fun heq => nomatch heq

/-! ## Slots -/

theorem card_register (s : Shared) (i : ℕ)
    (hfree : s.outstandingRequestHandlers.lookup s.requestIDGen = none) :
    (s.register i).outstandingRequestHandlers.keys.card =
      s.outstandingRequestHandlers.keys.card + 1 := by
  have hkeys : (s.register i).outstandingRequestHandlers.keys =
      insert s.requestIDGen s.outstandingRequestHandlers.keys := by
    ext requestID
    simp [Shared.register,Finmap.mem_keys]
  have hnot : s.requestIDGen ∉ s.outstandingRequestHandlers.keys := by
    rwa [Finmap.mem_keys,← Finmap.lookup_eq_none]
  rw [hkeys,Finset.card_insert_of_notMem hnot]

theorem card_remove {handler : ℕ} {requestID : UInt32}
    (h : s.outstandingRequestHandlers.lookup requestID = some handler) :
    (s.remove requestID).outstandingRequestHandlers.keys.card + 1 =
      s.outstandingRequestHandlers.keys.card := by
  have hmem : requestID ∈ s.outstandingRequestHandlers.keys := by
    rw [Finmap.mem_keys,Finmap.mem_iff]
    exact ⟨handler,h⟩
  rw [Shared.remove,Finmap.keys_erase,Finset.card_erase_add_one hmem]

theorem Exclusive.returned_eq_zero (h : Exclusive s t) (hi : (t i).locks = true) {j : ℕ}
    (hj : j ≠ i) : (t j).returned = 0 := by
  by_contra hne
  exact hj (h.eq_of_locks hi (h.returned j hne).2.1)

namespace Consistent
variable (h : Consistent s t started)
include h

theorem lookup_of_request {requestID : UInt32} {number : ℕ}
    (hrequest : (t i).request = some (requestID,number)) (haccepted : (t i).accepted = false) :
    s.outstandingRequestHandlers.lookup requestID = some i :=
  (h.registered.handler_iff requestID i).mpr
    ⟨number,h.registered.awaits_of_locked hrequest haccepted⟩

theorem lt_started {f : Traits → ℕ} (hf : f ⟨false,0,0,none,false,none⟩ = 0)
    (hi : f (t i) ≠ 0) : i < started := by
  by_contra hnot
  rw [h.unstarted i (not_lt.mp hnot)] at hi
  exact hi hf

/-- A slot that was given back too early belongs to a handler that is still registered. -/
theorem returned_le :
    totalOf Traits.returned started t ≤ s.outstandingRequestHandlers.keys.card := by
  by_cases hex : ∃ j, (t j).returned ≠ 0
  · obtain ⟨j,hj⟩ := hex
    obtain ⟨hone,hlocks,haccepted,hrequest⟩ := h.exclusive.returned j hj
    obtain ⟨⟨requestID,number⟩,hrequest⟩ := Option.ne_none_iff_exists'.mp hrequest
    have hcard := card_remove (h.lookup_of_request hrequest haccepted)
    have hlt : j < started := h.lt_started rfl hj
    rw [totalOf_eq_single hlt fun k hk => h.exclusive.returned_eq_zero hlocks hk,hone]
    omega
  · push Not at hex
    rw [totalOf_eq_zero hex]
    exact Nat.zero_le _

theorem active_pos_of_owned (hi : i < started) (howned : (t i).owned = 1) :
    0 < s.activeAppRequests := by
  have hle := h.returned_le
  have hslots := h.counted.slots
  have hmine : (t i).owned ≤ totalOf Traits.owned started t := le_totalOf hi
  omega

theorem active_pos_of_request (hi : i < started) (hlocks : (t i).locks = true)
    (hreturned : (t i).returned = 0) {request : UInt32 × ℕ} (hrequest : (t i).request = some request)
    (haccepted : (t i).accepted = false) : 0 < s.activeAppRequests := by
  have hcard := card_remove (h.lookup_of_request hrequest haccepted)
  have hnone : totalOf Traits.returned started t = (t i).returned :=
    totalOf_eq_single hi fun k hk => h.exclusive.returned_eq_zero hlocks hk
  have hslots := h.counted.slots
  omega

theorem requestIDGen_free (hnear : ∀ j requestID number, Awaits t j requestID number →
      s.issued - number < 2 ^ 31) :
    s.outstandingRequestHandlers.lookup s.requestIDGen = none := by
  cases hlookup : s.outstandingRequestHandlers.lookup s.requestIDGen with
  | none => rfl
  | some handler =>
    obtain ⟨number,hawaits⟩ := (h.registered.handler_iff _ handler).mp hlookup
    obtain ⟨hID,hlt⟩ := h.numbered.request _ _ _ hawaits.1
    rw [h.numbered.requestIDGen] at hID
    exact absurd hID.symm (requestIDOf_ne hlt (hnear _ _ _ hawaits))

end Consistent

theorem release_of_pos (h : 0 < s.activeAppRequests) :
    s.release = { s with activeAppRequests := s.activeAppRequests - 1 } := if_pos h

theorem Counted.update (h : Counted s t started) (hi : i < started) (hrunning : s'.panicked = false)
    (hslots : s'.activeAppRequests + x.returned + (t i).owned +
        s.outstandingRequestHandlers.keys.card =
      s.activeAppRequests + (t i).returned + x.owned +
        s'.outstandingRequestHandlers.keys.card) :
    Counted s' (Function.update t i x) started := by
  have howned : totalOf Traits.owned started (Function.update t i x) + (t i).owned =
      totalOf Traits.owned started t + x.owned := totalOf_update hi x
  have hreturned : totalOf Traits.returned started (Function.update t i x) + (t i).returned =
      totalOf Traits.returned started t + x.returned := totalOf_update hi x
  have hbefore := h.slots
  exact ⟨by omega,hrunning⟩

/-! ## Steps and runs -/

/-- While a thread without a request holds the lock, every registered request is accepted: one
that is not accepted yet holds the lock itself. -/
theorem Consistent.accepted_of_lookup (h : Consistent s t started) (hlocks : (t i).locks = true)
    (hrequest : (t i).request = none) {requestID : UInt32} {handler : ℕ}
    (hlookup : s.outstandingRequestHandlers.lookup requestID = some handler) :
    (t handler).accepted = true := by
  obtain ⟨number,hawaits⟩ := (h.registered.handler_iff _ _).mp hlookup
  by_contra hnot
  have hholds := h.exclusive.unaccepted handler (by simp [hawaits.1]) (by simpa using hnot)
  have hpending := hawaits.1
  rw [h.exclusive.eq_of_locks hlocks hholds,hrequest] at hpending
  cases hpending

/-- Every effect keeps the invariant, if no request has been waiting for an answer while
`2^31` others were sent. -/
theorem Consistent.effect (h : Consistent s t started) (hi : i < started)
    (heffect : Effect i s (t i) s' x)
    (hnear : ∀ j requestID number, Awaits t j requestID number →
      s'.issued - (number + 1) < 2 ^ 31) :
    Consistent s' (Function.update t i x) started := by
  have hunstarted : ∀ j, started ≤ j →
      Function.update t i x j = ⟨false,0,0,none,false,none⟩ := by
    intro j hj
    rw [Function.update_of_ne (hi.trans_le hj).ne']
    exact h.unstarted j hj
  have hnumbered := h.numbered
  have hregistered := h.registered
  have hexclusive := h.exclusive
  have hcounted := h.counted
  have hrunning := hcounted.running
  generalize ht : t i = y at heffect
  cases heffect with
  | quiet =>
    rw [← ht,Function.update_eq_self]
    exact h
  | acquire =>
    refine ⟨hnumbered.frame rfl rfl (.inr rfl),hregistered.frame rfl (by rw [ht]) (by rw [ht])
      (by simp [ht]),hexclusive.frame rfl (by rw [ht]) (by simp) (by simp),
      hcounted.update hi hrunning ?_,hunstarted⟩
    simp only [ht]
  | lock owned hfree =>
    refine ⟨hnumbered.frame rfl rfl (.inr rfl),hregistered.frame rfl (by rw [ht]) (by rw [ht])
      (by simp [ht]),hexclusive.lock hfree rfl rfl,hcounted.update hi hrunning ?_,hunstarted⟩
    simp only [ht]
  | unlock owned request accepted taken hrequest =>
    refine ⟨hnumbered.frame rfl rfl (.inl (by rw [ht])),hregistered.frame rfl (by rw [ht])
      (by rw [ht]) (by simp [ht]),hexclusive.unlock (by rw [ht]) rfl rfl hrequest,
      hcounted.update hi hrunning ?_,hunstarted⟩
    simp only [ht]
  | release locks taken =>
    have hpos := h.active_pos_of_owned hi (by rw [ht])
    rw [release_of_pos hpos]
    refine ⟨hnumbered.frame rfl rfl (.inr rfl),hregistered.frame rfl (by rw [ht]) (by rw [ht])
      (by simp [ht]),hexclusive.frame rfl (by rw [ht]) (by simp) (by simp),
      hcounted.update hi hrunning ?_,hunstarted⟩
    simp only [ht]
    omega
  | register =>
    have hfree := h.requestIDGen_free fun j requestID number hawaits => by
      have hlt := (hnumbered.request _ _ _ hawaits.1).2
      have hnear := hnear j requestID number hawaits
      change s.issued + 1 - (number + 1) < 2 ^ 31 at hnear
      omega
    have hcard := card_register s i hfree
    refine ⟨hnumbered.register rfl,hregistered.register ht hfree,
      hexclusive.frame rfl (by rw [ht]) (by simp) (by simp),hcounted.update hi hrunning ?_,hunstarted⟩
    rw [hcard]
    simp only [ht,Shared.register]
    omega
  | accept request =>
    refine ⟨hnumbered.frame rfl rfl (.inl (by rw [ht])),hregistered.frame rfl (by rw [ht])
      (by rw [ht]) (by simp),hexclusive.frame rfl (by rw [ht]) (by simp) (by simp),
      hcounted.update hi hrunning ?_,hunstarted⟩
    simp only [ht]
  | fail request =>
    have hpos := h.active_pos_of_request hi (by rw [ht]) (by rw [ht]) (by rw [ht]) (by rw [ht])
    rw [release_of_pos hpos]
    refine ⟨hnumbered.frame rfl rfl (.inl (by rw [ht])),hregistered.frame rfl (by rw [ht])
      (by rw [ht]) (by simp [ht]),hexclusive.frame rfl (by rw [ht]) (by simp) (by simp),
      hcounted.update hi hrunning ?_,hunstarted⟩
    simp only [ht]
    omega
  | remove requestID number =>
    have hcard := card_remove (h.lookup_of_request (by rw [ht]) (by rw [ht]))
    refine ⟨hnumbered.frame rfl rfl (.inr rfl),hregistered.removeFailed (by rw [ht]) (by rw [ht])
      (by rw [ht]) rfl rfl,hexclusive.frame rfl (by rw [ht]) (by simp) (by simp),
      hcounted.update hi hrunning ?_,hunstarted⟩
    rw [← hcard]
    simp only [ht]
    change s.activeAppRequests + 0 + 0 + (_ + 1) = s.activeAppRequests + 1 + 0 + _
    omega
  | take requestID handler hlookup =>
    have hcard := card_remove hlookup
    have haccepted := h.accepted_of_lookup (by rw [ht]) (by rw [ht]) hlookup
    refine ⟨hnumbered.frame rfl rfl (.inr rfl),hregistered.take hlookup haccepted (by rw [ht]) rfl
      (by rw [ht]) (by rw [ht]),hexclusive.frame rfl (by rw [ht]) (by simp) (by simp),
      hcounted.update hi hrunning ?_,hunstarted⟩
    rw [← hcard]
    simp only [ht]
    change s.activeAppRequests + 0 + 0 + (_ + 1) = s.activeAppRequests + 0 + 1 + _
    omega

def traits (n : Network) (i : ℕ) : Traits := (n.place i).traits

theorem traits_move (n : Network) (i : ℕ) (next : Shared × Place) :
    traits (n.move i next) = Function.update (traits n) i next.2.traits := by
  funext j
  by_cases hj : j = i
  · simp [traits,Threads.move,hj]
  · simp [traits,Threads.move,hj]

/-- Fewer than `2^31` requests are sent while one of them is waiting for its answer. -/
def Allows (maxActiveAppRequests : ℤ) (n : Network) (a : Action) : Prop :=
  ∀ i requestID number, Awaits (traits n) i requestID number →
    (step maxActiveAppRequests n a).shared.issued - (number + 1) < 2 ^ 31

def Reached (maxActiveAppRequests : ℤ) : Network → Prop :=
  Reaches (· = newNetwork) (Allows maxActiveAppRequests) (step maxActiveAppRequests)

theorem call_traits (call : Call) : call.place.traits = ⟨false,0,0,none,false,none⟩ := by
  cases call <;> rfl

theorem consistent_new : Consistent newNetwork.shared (traits newNetwork) 0 where
  numbered := ⟨rfl,fun _ _ _ h => (nomatch h),fun _ _ _ _ _ h => (nomatch h)⟩
  registered := by
    refine ⟨fun requestID handler => ?_,fun _ _ _ _ _ h => (nomatch h),fun _ _ _ h => (nomatch h)⟩
    refine iff_of_false ?_ fun ⟨_,h,_⟩ => (nomatch h)
    simp [newNetwork]
  exclusive := ⟨fun _ => iff_of_false (fun h => (nomatch h)) (fun h => (nomatch h)),
    fun _ h => absurd rfl h,fun _ h => absurd rfl h⟩
  counted := ⟨rfl,rfl⟩
  unstarted _ _ := rfl

theorem Consistent.step {maxActiveAppRequests : ℤ} {n : Network} {a : Action}
    (h : Consistent n.shared (traits n) n.started) (ha : Allows maxActiveAppRequests n a) :
    Consistent (step maxActiveAppRequests n a).shared (traits (step maxActiveAppRequests n a))
      (step maxActiveAppRequests n a).started := by
  cases a with
  | call call =>
    -- a new call has nothing yet that the others could notice
    have hnew := h.unstarted n.started le_rfl
    have htraits : traits (n.start call.place) = traits n := by
      funext j
      by_cases hj : j = n.started
      · subst hj
        rw [hnew,← call_traits call]
        simp [traits,Threads.start]
      · simp [traits,Threads.start,hj]
    have hsame (f : Traits → ℕ) (hf : f ⟨false,0,0,none,false,none⟩ = 0) :
        totalOf f (n.started + 1) (traits n) = totalOf f n.started (traits n) := by
      have hupdate : totalOf f (n.started + 1) (Function.update (traits n) n.started _) = _ :=
        totalOf_succ_update (traits n n.started)
      rwa [Function.update_eq_self,hnew,hf] at hupdate
    change Consistent n.shared (traits (n.start call.place)) (n.started + 1)
    rw [htraits]
    refine ⟨h.numbered,h.registered,h.exclusive,⟨?_,h.counted.running⟩,
      fun j hj => h.unstarted j (Nat.le_of_succ_le hj)⟩
    rw [hsame _ rfl,hsame _ rfl]
    exact h.counted.slots
  | advance i env =>
    by_cases hi : i < n.started
    · have hstep : Peer.step maxActiveAppRequests n (.advance i env) =
          n.move i (move maxActiveAppRequests i env n.shared (n.place i)) := if_pos hi
      unfold Allows at ha
      rw [hstep] at ha ⊢
      rw [traits_move]
      exact h.effect hi (move_effect ..) ha
    · have hstep : Peer.step maxActiveAppRequests n (.advance i env) = n := if_neg hi
      rw [hstep]
      exact h

theorem Reached.consistent {maxActiveAppRequests : ℤ} {n : Network}
    (h : Reached maxActiveAppRequests n) : Consistent n.shared (traits n) n.started :=
  Reaches.invariant (P := fun n => Consistent n.shared (traits n) n.started)
    (fun _ hn => hn ▸ consistent_new) (fun _ _ hn ha => hn.step ha) h

/-! ## What the handlers see -/

def Place.invocation (handler : ℕ) : Place → Option (UInt32 × Event)
  | .received requestID event (some h) => if h = handler then some (requestID,event) else none
  | _ => none

def invocations (n : Network) (handler : ℕ) : List (UInt32 × Event) :=
  (List.range n.started).filterMap fun i => (n.place i).invocation handler

theorem taken_of_invocation {p : Place} {handler : ℕ} {requestID : UInt32} {event : Event}
    (h : p.invocation handler = some (requestID,event)) :
    p.traits.taken = some (handler,requestID) := by
  unfold Place.invocation at h
  split at h
  · split at h
    · next heq =>
      cases h
      rw [← heq]
      rfl
    · cases h
  · cases h

theorem length_filterMap_le_one {α β : Type} {f : α → Option β} {l : List α} (hnodup : l.Nodup)
    (h : ∀ a ∈ l, ∀ b ∈ l, (f a).isSome → (f b).isSome → a = b) :
    (l.filterMap f).length ≤ 1 := by
  induction l with
  | nil => simp
  | cons a l ih =>
    obtain ⟨hnew,hnodup⟩ := List.nodup_cons.mp hnodup
    cases ha : f a with
    | none =>
      rw [List.filterMap_cons_none ha]
      exact ih hnodup fun b hb c hc =>
        h b (List.mem_cons_of_mem _ hb) c (List.mem_cons_of_mem _ hc)
    | some b =>
      have hrest : l.filterMap f = [] := by
        rw [List.filterMap_eq_nil_iff]
        intro c hc
        by_contra hsome
        have heq := h a List.mem_cons_self c (List.mem_cons_of_mem _ hc) (by simp [ha])
          (Option.isSome_iff_ne_none.mpr hsome)
        exact hnew (heq ▸ hc)
      rw [List.filterMap_cons_some ha,hrest]
      exact le_rfl

def Quiet (n : Network) : Prop :=
  ∀ i < n.started, (∃ result, n.place i = .sendReturned result) ∨
    ∃ requestID event handler, n.place i = .received requestID event handler

theorem Consistent.slots_of_quiet {n : Network} (h : Consistent n.shared (traits n) n.started)
    (hquiet : Quiet n) :
    n.shared.activeAppRequests = n.shared.outstandingRequestHandlers.keys.card := by
  have hdone (i : ℕ) : (traits n i).owned = 0 ∧ (traits n i).returned = 0 := by
    by_cases hi : i < n.started
    · unfold traits
      rcases hquiet i hi with ⟨result,hplace⟩ | ⟨requestID,event,handler,hplace⟩
      · rw [hplace]
        cases result <;> exact ⟨rfl,rfl⟩
      · rw [hplace]
        cases handler <;> exact ⟨rfl,rfl⟩
    · rw [h.unstarted i (not_lt.mp hi)]
      exact ⟨rfl,rfl⟩
  have hslots := h.counted.slots
  rw [totalOf_eq_zero fun i => (hdone i).1,totalOf_eq_zero fun i => (hdone i).2] at hslots
  omega

theorem Consistent.invocations_length {n : Network} (h : Consistent n.shared (traits n) n.started)
    (handler : ℕ) : (invocations n handler).length ≤ 1 := by
  refine length_filterMap_le_one List.nodup_range fun i _ j _ hi hj => ?_
  obtain ⟨⟨requestID,event⟩,hi⟩ := Option.isSome_iff_exists.mp hi
  obtain ⟨⟨requestID',event'⟩,hj⟩ := Option.isSome_iff_exists.mp hj
  exact h.registered.taken_unique i j handler requestID requestID' (taken_of_invocation hi)
    (taken_of_invocation hj)

theorem Consistent.invocations_sent {n : Network} (h : Consistent n.shared (traits n) n.started)
    {handler : ℕ} {requestID : UInt32} {event : Event}
    (hmem : (requestID,event) ∈ invocations n handler) :
    (traits n handler).accepted = true ∧
      ∃ number, (traits n handler).request = some (requestID,number) := by
  obtain ⟨i,_,hi⟩ := List.mem_filterMap.mp hmem
  exact h.registered.taken_accepted i handler requestID (taken_of_invocation hi)

theorem sent_of_accepted {p : Place} {requestID : UInt32} {number : ℕ}
    (haccepted : p.traits.accepted = true) (hrequest : p.traits.request = some (requestID,number)) :
    p = .unlocking (.sent requestID number) ∨ p = .sendReturned (.sent requestID number) := by
  unfold Place.traits at haccepted hrequest
  split at haccepted
  all_goals try cases haccepted
  · next result =>
    cases result <;> cases hrequest
    exact Or.inl rfl
  · next result =>
    cases result <;> cases hrequest
    exact Or.inr rfl

/-- The handlers registered are those of the requests still to be answered, under even IDs of
which no two agree. A handler is invoked at most once, for its own request and only if that was
sent. No slot is given back twice, and between calls the slots taken are those of the handlers. -/
theorem requests_accounted (maxActiveAppRequests : ℤ) (n : Network)
    (h : Reached maxActiveAppRequests n) :
    (∀ requestID handler, n.shared.outstandingRequestHandlers.lookup requestID = some handler ↔
      ∃ number, Awaits (traits n) handler requestID number) ∧
    (∀ i j requestID k m, Awaits (traits n) i requestID k → Awaits (traits n) j requestID m →
      i = j) ∧
    (∀ i requestID k, Awaits (traits n) i requestID k → requestID.toNat % 2 = 0) ∧
    (∀ handler, (invocations n handler).length ≤ 1) ∧
    (∀ handler requestID event, (requestID,event) ∈ invocations n handler → ∃ number,
      n.place handler = .unlocking (.sent requestID number) ∨
        n.place handler = .sendReturned (.sent requestID number)) ∧
    (∀ handler err, n.place handler = .sendReturned (.sendFailed err) →
      invocations n handler = []) ∧
    n.shared.panicked = false ∧
    (Quiet n →
      n.shared.activeAppRequests = n.shared.outstandingRequestHandlers.keys.card) := by
  have hn := h.consistent
  have hsent : ∀ handler requestID event, (requestID,event) ∈ invocations n handler → ∃ number,
      n.place handler = .unlocking (.sent requestID number) ∨
        n.place handler = .sendReturned (.sent requestID number) := by
    intro handler requestID event hmem
    obtain ⟨haccepted,number,hrequest⟩ := hn.invocations_sent hmem
    exact ⟨number,sent_of_accepted haccepted hrequest⟩
  refine ⟨hn.registered.handler_iff,fun i j requestID k m hi hj => hn.registered.awaits_inj hi hj,
    fun i requestID k hi => ?_,hn.invocations_length,hsent,fun handler err hfailed => ?_,
    hn.counted.running,hn.slots_of_quiet⟩
  · rw [(hn.numbered.request i requestID k hi.1).1]
    exact requestIDOf_even k
  · rw [List.eq_nil_iff_forall_not_mem]
    rintro ⟨requestID,event⟩ hmem
    obtain ⟨number,hplace | hplace⟩ := hsent handler requestID event hmem
    · rw [hfailed] at hplace
      cases hplace
    · rw [hfailed] at hplace
      cases hplace

/-! ## The handler that waits -/

/-- `waitingResponseHandler`, with what is buffered in its channel. -/
structure WaitingResponseHandler where
  responseChan : List Bytes
  chanClosed : Bool
  failed : Bool

def newWaitingResponseHandler : WaitingResponseHandler := ⟨[],false,false⟩

namespace WaitingResponseHandler

/-- `OnResponse` and `OnFailure`; none stands for a panic on the closed channel and for a send
that blocks because the buffer is full. -/
def on (w : WaitingResponseHandler) : Event → Option WaitingResponseHandler
  | .response response =>
    if w.chanClosed ∨ w.responseChan ≠ [] then none
    else some { w with responseChan := [response], chanClosed := true }
  | .failure => if w.chanClosed then none else some { w with failed := true, chanClosed := true }

/-- `WaitForResult` under a context that stays alive; none if it still waits. -/
def waitForResult (w : WaitingResponseHandler) : Option (Except String Bytes) :=
  match w.responseChan with
  | response :: _ => some (if w.failed then .error "request failed" else .ok response)
  | [] =>
    if w.chanClosed then some (if w.failed then .error "request failed" else .ok []) else none

end WaitingResponseHandler

def Event.result : Event → Except String Bytes
  | .response bytes => .ok bytes
  | .failure => .error "request failed"

/-- A handler that waits never panics, and what it gives is what it was invoked with. -/
theorem Reached.waitForResult {maxActiveAppRequests : ℤ} {n : Network}
    (h : Reached maxActiveAppRequests n) (handler : ℕ) :
    ∃ w, (invocations n handler).foldlM (fun w v => WaitingResponseHandler.on w v.2)
        newWaitingResponseHandler = some w ∧
      w.waitForResult = (invocations n handler).head?.map fun v => v.2.result := by
  have hlength := h.consistent.invocations_length handler
  generalize invocations n handler = made at hlength ⊢
  rcases made with _ | ⟨⟨requestID,event⟩,_ | ⟨v,rest⟩⟩
  · exact ⟨_,rfl,rfl⟩
  · cases event <;> exact ⟨_,rfl,rfl⟩
  · simp at hlength

/-! ## Short runs -/

theorem issued_step_le (maxActiveAppRequests : ℤ) (n : Network) (a : Action) :
    (step maxActiveAppRequests n a).shared.issued ≤ n.shared.issued + 1 := by
  cases a with
  | call call => exact Nat.le_succ _
  | advance i env =>
    by_cases hi : i < n.started
    · have hstep : step maxActiveAppRequests n (.advance i env) =
          n.move i (move maxActiveAppRequests i env n.shared (n.place i)) := if_pos hi
      rw [hstep]
      have heffect := move_effect maxActiveAppRequests i env n.shared (n.place i)
      change (move maxActiveAppRequests i env n.shared (n.place i)).1.issued ≤ _
      have hrelease : n.shared.release.issued = n.shared.issued := by
        unfold Shared.release
        split <;> rfl
      generalize move maxActiveAppRequests i env n.shared (n.place i) = next at heffect
      obtain ⟨s',p'⟩ := next
      generalize (n.place i).traits = x, p'.traits = x' at heffect
      cases heffect
      case release => exact hrelease.le.trans (Nat.le_succ _)
      case fail => exact hrelease.le.trans (Nat.le_succ _)
      case register => exact le_rfl
      all_goals exact Nat.le_succ _
    · have hstep : step maxActiveAppRequests n (.advance i env) = n := if_neg hi
      rw [hstep]
      exact Nat.le_succ _

theorem reached_of_short (maxActiveAppRequests : ℤ) (actions : List Action)
    (h : actions.length < 2 ^ 31) :
    Reached maxActiveAppRequests (actions.foldl (step maxActiveAppRequests) newNetwork) ∧
      (actions.foldl (step maxActiveAppRequests) newNetwork).shared.issued ≤ actions.length := by
  induction actions using List.reverseRecOn with
  | nil => exact ⟨.start rfl,le_rfl⟩
  | append_singleton actions a ih =>
    rw [List.length_append,List.length_singleton] at h ⊢
    obtain ⟨hreached,hissued⟩ := ih (by omega)
    rw [List.foldl_append]
    have hle := issued_step_le maxActiveAppRequests
      (actions.foldl (step maxActiveAppRequests) newNetwork) a
    refine ⟨.step hreached fun i requestID number _ => ?_,hle.trans (by omega)⟩
    omega

namespace Sample

def fine : Env := ⟨none,none⟩

def answered : Network :=
  ([.call (.sendAppRequest ⟨List.replicate Uptime.nodeIDLen 1,List.length_replicate⟩ 3),
    .advance 0 fine,.advance 0 fine,.advance 0 fine,.advance 0 fine,.advance 0 fine,
    .advance 0 fine,.call (.appResponse 0 [7]),.advance 1 fine,.advance 1 fine,.advance 1 fine,
    .advance 1 fine,.advance 1 fine] : List Action).foldl (step 1) newNetwork

theorem answered_accounted : Quiet answered ∧ answered.shared.activeAppRequests = 0 ∧
    answered.shared.outstandingRequestHandlers.keys.card = 0 ∧
    invocations answered 0 = [(0,.response [7])] := by
  have hquiet : Quiet answered := by
    intro i hi
    have hcases : i = 0 ∨ i = 1 := by
      change i < 2 at hi
      omega
    rcases hcases with rfl | rfl
    · exact Or.inl ⟨.sent 0 0,rfl⟩
    · exact Or.inr ⟨0,.response [7],some 0,rfl⟩
  have hslots := (requests_accounted 1 answered (reached_of_short 1 _ (by decide)).1).2.2.2.2.2.2.2
    hquiet
  exact ⟨hquiet,rfl,hslots.symm.trans rfl,rfl⟩

end Sample
end Landslide.Peer
