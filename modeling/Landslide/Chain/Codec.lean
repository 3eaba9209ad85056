import Landslide.Comet.Interface
import Landslide.Lib.Exec

/-! # Blocks on the wire

A block travels as the protobuf encoding of the CometBFT block inside a JSON record
that also carries a status. Decoding returns the embedded status as it is.
-/
namespace Landslide
variable {H : Type} (C : CometBFT H)

def encodeBlock (b : Block H) : Except String Bytes := do
  let proto ← C.toProto b
  C.marshalBlock proto

def decodeBlock (data : Bytes) : Except String (Block H) := do
  let protoBlock ← C.unmarshalBlock data
  C.blockFromProto protoBlock

def encodeBlockWithStatus (b : Block H) (status : Status) : Except String Bytes := do
  let blockBytes ← encodeBlock C b
  C.jsonMarshal ⟨blockBytes,status⟩

def decodeBlockWithStatus (data : Bytes) : Except String (Block H × Status) := do
  let wrappedBlk ← C.jsonUnmarshal data
  let b ← decodeBlock C wrappedBlk.block
  pure (b,wrappedBlk.status)

def Encodable (b : Block H) : Prop := ∃ data, encodeBlock C b = .ok data

variable {C}

theorem encodeBlockWithStatus_ok (hC : C.CodecRules) {b : Block H} (hb : Encodable C b)
    (status : Status) : ∃ data, encodeBlockWithStatus C b status = .ok data := by
  obtain ⟨blockBytes,hb⟩ := hb
  obtain ⟨data,hd⟩ := hC.jsonMarshal_ok ⟨blockBytes,status⟩
  refine ⟨data,?_⟩
  unfold encodeBlockWithStatus
  rw [hb]
  exact hd

theorem Encodable.of_encodeBlockWithStatus {b : Block H} {status : Status} {data : Bytes}
    (h : encodeBlockWithStatus C b status = .ok data) : Encodable C b := by
  obtain ⟨blockBytes,hb,_⟩ := bind_eq_ok h
  exact ⟨blockBytes,hb⟩

theorem decodeBlockWithStatus_fromProto {data : Bytes} {b : Block H} {status : Status}
    (h : decodeBlockWithStatus C data = .ok (b,status)) :
    ∃ bytes p, C.unmarshalBlock bytes = .ok p ∧ C.blockFromProto p = .ok b := by
  obtain ⟨w,_,h⟩ := bind_eq_ok h
  obtain ⟨b',hb,h⟩ := bind_eq_ok h
  obtain ⟨p,hu,hp⟩ := bind_eq_ok hb
  have he : (b',w.status) = (b,status) := Except.ok.inj h
  exact ⟨w.block,p,hu,(Prod.mk.inj he).1 ▸ hp⟩

theorem decodeBlockWithStatus_encodable (hC : C.CodecRules) {data : Bytes} {b : Block H}
    {status : Status} (h : decodeBlockWithStatus C data = .ok (b,status)) : Encodable C b := by
  obtain ⟨_,p,hu,hp⟩ := decodeBlockWithStatus_fromProto h
  obtain ⟨q,bytes,hq,hm⟩ := hC.decoded_encodes hu hp
  refine ⟨bytes,?_⟩
  unfold encodeBlock
  rw [hq]
  exact hm

end Landslide
