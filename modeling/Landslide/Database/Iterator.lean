import Landslide.Comet.Types

/-! # The iterator over the remote database

The iterator of the database client receives the entries in batches that a goroutine
fetches from the server. A fresh iterator has no data, and its position moves only by
`Next`, so a loop that asks `Valid` first never gets to the first entry. `Next` itself
replaces the current batch even when entries of it are left, and the upper bound is
never looked at. The reverse iterator is the forward one under another name.
-/
namespace Landslide.Database

structure PutRequest where
  key : Bytes
  value : Bytes
  deriving DecidableEq

inductive DBError where
  | closed
  | server (e : String)
  deriving DecidableEq

structure Iterator where
  start : Option Bytes
  stop : Option Bytes
  data : List PutRequest
  /-- The batches that the channel `fetchedData` will still deliver before it is closed. -/
  fetchedData : List (List PutRequest)
  err : Option DBError

/-- `Database.Iterator`, with what the goroutine is going to fetch. -/
def iterator (start stop : Option Bytes) (fetchedData : List (List PutRequest)) : Iterator :=
  ⟨start,stop,[],fetchedData,none⟩

def reverseIterator (start stop : Option Bytes) (fetchedData : List (List PutRequest)) : Iterator :=
  iterator start stop fetchedData

namespace Iterator

def key (it : Iterator) : Bytes :=
  match it.data with
  | [] => []
  | e :: _ => e.key

def value (it : Iterator) : Bytes :=
  match it.data with
  | [] => []
  | e :: _ => e.value

def valid (it : Iterator) : Bool := it.err = none ∧ it.key.length > 0

def setError (it : Iterator) (e : DBError) : Iterator :=
  { it with err := it.err.or (some e) }

/-- The receive from `fetchedData`; a closed channel delivers nil. -/
def receive (it : Iterator) : Iterator :=
  { it with data := it.fetchedData.headD [], fetchedData := it.fetchedData.tail }

/-- `Next`. Neither of the two branches returns, so the receive always happens. -/
def next (it : Iterator) (closed : Bool) : Iterator :=
  let it := if closed then { it with data := [] }.setError .closed else it
  let it := if it.data.length > 1 then { it with data := it.data.tail } else it
  it.receive

@[simp] theorem next_open (it : Iterator) : it.next false = it.receive := by
  unfold next receive
  by_cases h : it.data.length > 1
  · simp [h]
  · simp [h]

theorem data_ne_nil_of_valid {it : Iterator} (h : it.valid = true) : it.data ≠ [] := by
  intro hnil
  simp [valid,key,hnil] at h

/-- The loop `for ; it.Valid(); it.Next()` on an open database, with the entries it
visits. Every turn but the last takes a batch from the channel. -/
def visit (it : Iterator) : List PutRequest :=
  if _h : it.valid = true then ⟨it.key,it.value⟩ :: visit (it.next false) else []
termination_by it.fetchedData.length + (if it.data = [] then 0 else 1)
decreasing_by
  have hne := data_ne_nil_of_valid _h
  rw [next_open,if_neg hne]
  cases hf : it.fetchedData with
  | nil => simp [receive,hf]
  | cons batch rest =>
    simp only [receive,hf,List.tail_cons,List.headD_cons,List.length_cons]
    split <;> omega

theorem visit_of_not_valid {it : Iterator} (h : it.valid = false) : it.visit = [] := by
  rw [visit,dif_neg (by simp [h])]

end Iterator

/-! ## The contract -/

structure Content where
  entries : List PutRequest
  sorted : entries.Pairwise (fun a b => a.key < b.key)

/-- `start <= key < end`, where a missing bound is no bound. -/
def InRange (start stop : Option Bytes) (key : Bytes) : Prop :=
  (∀ s ∈ start, s ≤ key) ∧ ∀ e ∈ stop, key < e

instance (start stop : Option Bytes) (key : Bytes) : Decidable (InRange start stop key) :=
  inferInstanceAs (Decidable (_ ∧ _))

def Content.range (content : Content) (start stop : Option Bytes) : List PutRequest :=
  content.entries.filter (fun e => InRange start stop e.key)

/-- The server delivers all entries from `start` on, split into batches in some way. -/
structure Delivers (content : Content) (start : Option Bytes) (batches : List (List PutRequest)) :
    Prop where
  nonempty : ∀ batch ∈ batches, batch ≠ []
  entries : batches.flatten = content.range start none

/-- Whatever the server delivers, driving the iterator that `Database.Iterator` returns
meets the contract if and only if there is no entry to visit. -/
theorem visit_eq_range_iff (content : Content) (start stop : Option Bytes)
    (batches : List (List PutRequest)) :
    (iterator start stop batches).visit = content.range start stop ↔
      ∀ e ∈ content.entries, ¬InRange start stop e.key := by
  have hfresh : (iterator start stop batches).valid = false := rfl
  rw [Iterator.visit_of_not_valid hfresh,eq_comm,Content.range,List.filter_eq_nil_iff]
  simp

theorem reverseIterator_visit_iff (content : Content) (start stop : Option Bytes)
    (batches : List (List PutRequest)) :
    (reverseIterator start stop batches).visit = (content.range start stop).reverse ↔
      ∀ e ∈ content.entries, ¬InRange start stop e.key := by
  have hfresh : (reverseIterator start stop batches).valid = false := rfl
  rw [Iterator.visit_of_not_valid hfresh,eq_comm,List.reverse_eq_nil_iff,Content.range,
    List.filter_eq_nil_iff]
  simp

namespace Sample

def entry : PutRequest := ⟨[1],[7]⟩

def content : Content := ⟨[entry],List.pairwise_singleton _ _⟩

theorem delivers : Delivers content none [[entry]] := by
  refine ⟨?_,by decide⟩
  simp

/-- A database with one entry, delivered in one batch, of which nothing is visited. -/
theorem visit_misses_entry : Delivers content none [[entry]] ∧
    (iterator none none [[entry]]).visit ≠ content.range none none := by
  refine ⟨delivers,?_⟩
  rw [Iterator.visit_of_not_valid rfl]
  decide

def newest : PutRequest := ⟨[2],[8]⟩

def twoEntries : Content := ⟨[entry,newest],by decide⟩

/-- Two entries, delivered in one batch. The reverse iterator visits neither, and after a
`Next` of its own it stands on the oldest. -/
theorem reverseIterator_misses_newest : Delivers twoEntries none [[entry,newest]] ∧
    (reverseIterator none none [[entry,newest]]).visit ≠ (twoEntries.range none none).reverse ∧
    ((reverseIterator none none [[entry,newest]]).next false).key = entry.key := by
  refine ⟨⟨by simp,by decide⟩,?_,by decide⟩
  rw [Iterator.visit_of_not_valid rfl]
  decide

end Sample
end Landslide.Database
