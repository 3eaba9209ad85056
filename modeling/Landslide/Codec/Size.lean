import Landslide.Codec.Manager
import Landslide.Codec.RoundTrip

/-! # The size of a value

`Size` computes how many bytes `marshal` is going to write, in a recursion of its own. It takes
the size of the first element for all of them where the type has values of one size only.
-/
namespace Landslide.Codec
variable {N : Type}

inductive SizeError where
  | marshalNil
  | recursiveInterfaceTypes
  | zeroLength (what : String)
  | fields (e : CodecError)
  | unknownKind (kind : String)
  /-- The recursion went deeper than the model follows it. -/
  | outOfFuel
  deriving DecidableEq

def SizeError.text : SizeError → String
  | marshalNil => "can't marshal nil pointer or interface"
  | recursiveInterfaceTypes => "recursive interface types: %s"
  | zeroLength what => "can't marshal " ++ what ++ ": can't marshal zero length value"
  | fields e => e.text
  | unknownKind kind => "can't evaluate marshal length of unknown kind " ++ kind
  | outOfFuel => "stack overflow"

/-- A size, and whether all values of the type have it. -/
abbrev SizeOf (α : Type) := α → Except SizeError (ℕ × Bool)

def sizeRest {α : Type} (sizeElem : SizeOf α) : List α → Except SizeError ℕ
  | [] => .ok 0
  | a :: as => do
    let (innerSize,_) ← sizeElem a
    let size ← sizeRest sizeElem as
    .ok (innerSize + size)

def sizeSlice {α : Type} (sizeElem : SizeOf α) : SizeOf (List α)
  | [] => .ok (4,false)
  | a :: as => do
    let (size,constSize) ← sizeElem a
    if size = 0 then .error (.zeroLength "slice of zero length values")
    else if constSize then .ok (4 + (as.length + 1) * size,false)
    else do
      let more ← sizeRest sizeElem as
      .ok (4 + (size + more),false)

def sizeArray {α : Type} (sizeElem : SizeOf α) : SizeOf (List α)
  | [] => .ok (0,true)
  | a :: as => do
    let (size,constSize) ← sizeElem a
    if constSize then .ok ((as.length + 1) * size,true)
    else do
      let more ← sizeRest sizeElem as
      .ok (size + more,false)

def sizeFields {τ α : Type} (sizeField : τ → SizeOf α) : List τ → SizeOf (List α)
  | [], [] => .ok (0,true)
  | t :: ts, a :: as => do
    let (innerSize,innerConstSize) ← sizeField t a
    let (size,constSize) ← sizeFields sizeField ts as
    .ok (innerSize + size,innerConstSize && constSize)
  | _, _ => .error (.unknownKind "invalid")

def sizeEntries (sizeKey sizeValue : SizeOf (Val N)) : List (Val N × Val N) → Except SizeError ℕ
  | [] => .ok 0
  | e :: entries => do
    let (keySize,_) ← sizeKey e.1
    let (valueSize,_) ← sizeValue e.2
    let size ← sizeEntries sizeKey sizeValue entries
    .ok (keySize + valueSize + size)

/-- The entries come in the order of the iteration. -/
def sizeMap (sizeKey sizeValue : SizeOf (Val N)) : SizeOf (List (Val N × Val N))
  | [] => .ok (4,false)
  | e :: entries => do
    let (keySize,keyConstSize) ← sizeKey e.1
    let (valueSize,valueConstSize) ← sizeValue e.2
    if keySize = 0 ∧ valueSize = 0 then .error (.zeroLength "map with zero length entries")
    else if keyConstSize && valueConstSize then
      .ok (4 + (entries.length + 1) * (keySize + valueSize),false)
    else if keyConstSize then do
      let more ← sizeRest sizeValue (entries.map Prod.snd)
      .ok (4 + (entries.length + 1) * keySize + (valueSize + more),false)
    else if valueConstSize then do
      let more ← sizeRest sizeKey (entries.map Prod.fst)
      .ok (4 + (keySize + more) + (entries.length + 1) * valueSize,false)
    else do
      let more ← sizeEntries sizeKey sizeValue entries
      .ok (4 + keySize + valueSize + more,false)

def prefixSize : ℕ := 4

def size [DecidableEq N] (env : TypeEnv N) (o : MapOrder N) :
    ℕ → GoType N → List (GoType N) → SizeOf (Val N)
  | 0, _, _, _ => .error .outOfFuel
  | fuel + 1, type, typeStack, value => match type, value with
    | .uint w, .num _ => .ok (w.len,true)
    | .int w, .int _ => .ok (w.len,true)
    | .bool, .bool _ => .ok (1,true)
    | .string, .string str => .ok (2 + str.length,false)
    | .slice _, .bytes bytes => sizeSlice (fun _ => .ok (1,true)) bytes
    | .slice elem, .list vs => sizeSlice (size env o fuel elem typeStack) vs
    | .array _ _, .bytes bytes => sizeArray (fun _ => .ok (1,true)) bytes
    | .array _ elem, .list vs => sizeArray (size env o fuel elem typeStack) vs
    | .interface _, .iface underlyingType v =>
      if typeStack.contains underlyingType then .error .recursiveInterfaceTypes
      else do
        let (valueSize,_) ← size env o fuel underlyingType (underlyingType :: typeStack) v
        .ok (prefixSize + valueSize,false)
    | .struct name, .struct vs => match getSerializedFields (env.fields name) with
      | .error e => .error (.fields e)
      | .ok types => sizeFields (fun type => size env o fuel type typeStack) types vs
    | .ptr elem, .ptr v => size env o fuel elem typeStack v
    | .map key elem, .map entries => sizeMap (size env o fuel key typeStack)
        (size env o fuel elem typeStack) (o.order entries)
    | .ptr _, .nil => .error .marshalNil
    | .interface _, .nil => .error .marshalNil
    | .other kind, _ => .error (.unknownKind kind)
    | _, _ => .error (.unknownKind "invalid")

/-! ## Sums of sizes -/

section
variable {α τ : Type}

def sizeOr (sizeElem : SizeOf α) (a : α) : ℕ :=
  match sizeElem a with
  | .ok (n,_) => n
  | .error _ => 0

theorem sizeOr_of_ok {sizeElem : SizeOf α} {a : α} {n : ℕ} {constSize : Bool}
    (h : sizeElem a = .ok (n,constSize)) : sizeOr sizeElem a = n := by
  simp [sizeOr,h]

/-- All elements have sizes, and a size that is constant is the size of all. -/
structure Known (sizeElem : SizeOf α) (as : List α) : Prop where
  sized : ∀ a ∈ as, ∃ constSize, sizeElem a = .ok (sizeOr sizeElem a,constSize)
  const : ∀ a ∈ as, ∀ a' ∈ as, ∀ n, sizeElem a = .ok (n,true) → sizeOr sizeElem a' = n

namespace Known
variable {sizeElem : SizeOf α} {a : α} {as : List α}

theorem tail (h : Known sizeElem (a :: as)) : Known sizeElem as :=
  ⟨fun b hb => h.sized b (List.mem_cons_of_mem _ hb),
    fun b hb b' hb' => h.const b (List.mem_cons_of_mem _ hb) b' (List.mem_cons_of_mem _ hb')⟩

theorem perm {as' : List α} (h : Known sizeElem as) (hperm : as'.Perm as) : Known sizeElem as' :=
  ⟨fun b hb => h.sized b (hperm.mem_iff.mp hb),
    fun b hb b' hb' => h.const b (hperm.mem_iff.mp hb) b' (hperm.mem_iff.mp hb')⟩

/-- If the size of the first element is constant, the sum is a product. -/
theorem sum_eq (h : Known sizeElem (a :: as)) {n : ℕ} (ha : sizeElem a = .ok (n,true)) :
    ((a :: as).map (sizeOr sizeElem)).sum = (as.length + 1) * n := by
  have hall : ∀ m ∈ (a :: as).map (sizeOr sizeElem), m = n := by
    intro m hm
    obtain ⟨b,hb,rfl⟩ := List.mem_map.mp hm
    exact h.const a List.mem_cons_self b hb n ha
  rw [List.eq_replicate_of_mem hall]
  simp

end Known

end

/-! ## Sizes are what is written -/

/-- The writer writes as many bytes as the size says. -/
def Measures {α : Type} (sizeElem : SizeOf α) (write : Pack α) (a : α) : Prop :=
  ∀ out out', write a out = .ok out' →
    ∃ n constSize, sizeElem a = .ok (n,constSize) ∧ out'.length = out.length + n

section
variable {α τ : Type} {sizeElem : SizeOf α} {write : Pack α}

theorem Measures.eq {a : α} (h : Measures sizeElem write a) {out out' : Bytes}
    (hw : write a out = .ok out') : (∃ constSize, sizeElem a = .ok (sizeOr sizeElem a,constSize)) ∧
      out'.length = out.length + sizeOr sizeElem a := by
  obtain ⟨n,constSize,hn,hlength⟩ := h _ _ hw
  rw [sizeOr_of_ok hn]
  exact ⟨⟨constSize,hn⟩,hlength⟩

def Written (write : Pack α) (a : α) : Prop := ∃ out out', write a out = .ok out'

end

/-! ## Every type -/

section
variable [DecidableEq N] {env : TypeEnv N} {fuel : ℕ} {typeStack : List (GoType N)}

end

namespace Sample

def flags : GoType ℕ := .map (.struct 0) .bool

/-- The map lists the larger key first. -/
def twoEntries : Val ℕ := .map [(.struct [.num 2],.bool true),(.struct [.num 1],.bool false)]

end Sample
end Landslide.Codec
