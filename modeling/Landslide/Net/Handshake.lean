import Landslide.Bloom.Filter
import Landslide.Lib.BigEndian

/-! # Handshakes and the peer lists made from them

A handshake carries the IP that the peer claims, and nodes that are told of a peer get that IP in
a peer list. Both messages have the port in 32 bits, of which 16 are used. The handshake is
refused if all 32 bits are zero, the peer list if the 16 bits are, and whoever sent a peer list
that is refused is disconnected.
-/
namespace Landslide.Net
variable {K : Type}

/-! ## Addresses -/

/-- `netip.Addr` without zones. -/
inductive Addr where
  | v4 (bytes : { bytes : Bytes // bytes.length = 4 })
  | v6 (bytes : { bytes : Bytes // bytes.length = 16 })

/-- What an address of version 4 begins with when it is written as one of version 6. -/
def mappedPrefix : Bytes := List.replicate 10 0 ++ [255,255]

def addrFromSlice (bytes : Bytes) : Option Addr :=
  if h : bytes.length = 4 then some (.v4 ⟨bytes,h⟩)
  else if h : bytes.length = 16 then
    if bytes.take 12 = mappedPrefix then
      some (.v4 ⟨bytes.drop 12,by rw [List.length_drop,h]⟩)
    else some (.v6 ⟨bytes,h⟩)
  else none

def Addr.as16 : Addr → Bytes
  | .v4 bytes => mappedPrefix ++ bytes.1
  | .v6 bytes => bytes.1

theorem addrFromSlice_as16 {bytes : Bytes} {addr : Addr} (h : addrFromSlice bytes = some addr) :
    addrFromSlice addr.as16 = some addr := by
  have hmapped : ∀ b : { bytes : Bytes // bytes.length = 4 },
      addrFromSlice (mappedPrefix ++ b.1) = some (.v4 b) := by
    intro b
    have hlength : (mappedPrefix ++ b.1).length = 16 := by simp [mappedPrefix,b.2]
    have htake : (mappedPrefix ++ b.1).take 12 = mappedPrefix := List.take_left' rfl
    have hdrop : (mappedPrefix ++ b.1).drop 12 = b.1 := List.drop_left' rfl
    simp only [addrFromSlice,hlength,htake,hdrop]
    rfl
  unfold addrFromSlice at h
  split at h
  · cases h
    exact hmapped _
  split at h
  · next hlength =>
    split at h
    · cases h
      exact hmapped _
    · next hplain =>
      cases h
      simp [Addr.as16,addrFromSlice,hlength,hplain]
  · cases h

/-! ## Handshakes -/

def maxNumTrackedSubnets : ℕ := 16
def maxBloomSaltLen : ℕ := 32
def subnetIDLen : ℕ := 32

structure Certificate (K : Type) where
  raw : Bytes
  publicKey : K

structure Client where
  name : String
  major : UInt32
  minor : UInt32
  patch : UInt32

structure KnownPeers where
  filter : Bytes
  salt : Bytes

structure Handshake where
  networkID : UInt32
  myTime : UInt64
  client : Client
  trackedSubnets : List Bytes
  knownPeers : Option KnownPeers
  ipAddr : Bytes
  ipPort : UInt32
  ipSigningTime : UInt64
  ipNodeIDSig : Bytes
  ipBlsSig : Bytes
  allSubnets : Bool

structure UnsignedIP where
  addr : Addr
  port : UInt16
  timestamp : UInt64

/-- What is signed. -/
def UnsignedIP.bytes (ip : UnsignedIP) : Bytes :=
  ip.addr.as16 ++ beBytes 2 ip.port.toNat ++ beBytes 8 ip.timestamp.toNat

structure SignedIP extends UnsignedIP where
  tlsSignature : Bytes
  blsSignatureBytes : Bytes

/-- What a node checks the handshake of a peer against. -/
structure PeerEnv (K : Type) where
  cert : Certificate K
  networkID : UInt32
  /-- The clocks differ by at most `MaxClockDifference`, in floats. -/
  clockAgrees : UInt64 → Bool
  maxUnixTimestamp : UInt64
  checkSignature : Certificate K → Bytes → Bytes → Bool
  /-- `bls.SignatureFromBytes` succeeds. -/
  isBlsSignature : Bytes → Bool
  /-- `shouldDisconnect`: the version, and the proof of possession of a validator. -/
  shouldDisconnect : Client → SignedIP → Bool

def SignedIP.verify (env : PeerEnv K) (ip : SignedIP) : Bool :=
  !decide (ip.timestamp > env.maxUnixTimestamp) &&
    env.checkSignature env.cert ip.toUnsignedIP.bytes ip.tlsSignature

def emptyFilter : Bloom.ReadFilter := ⟨[0],[0]⟩

/-- The filter and the salt; nothing if they are malformed. -/
def Handshake.known (msg : Handshake) : Option (Bloom.ReadFilter × Bytes) :=
  match msg.knownPeers with
  | none => some (emptyFilter,[])
  | some knownPeers => match Bloom.ReadFilter.parse knownPeers.filter with
    | .error _ => none
    | .ok filter =>
      if knownPeers.salt.length > maxBloomSaltLen then none else some (filter,knownPeers.salt)

/-- What the peer keeps of a handshake. The primary network comes in addition to the subnets. -/
structure Greeting where
  version : Client
  trackedSubnets : List Bytes
  knownPeers : Bloom.ReadFilter
  salt : Bytes
  ip : SignedIP

/-- `handleHandshake` up to the answer. Nothing is returned if the connection is closed. -/
def handleHandshake (env : PeerEnv K) (gotHandshake : Bool) (msg : Handshake) : Option Greeting :=
  if gotHandshake then none
  else if msg.networkID ≠ env.networkID then none
  else if !env.clockAgrees msg.myTime then none
  else if msg.trackedSubnets.length > maxNumTrackedSubnets then none
  else if !msg.trackedSubnets.all fun id => id.length == subnetIDLen then none
  else match msg.known with
    | none => none
    | some (knownPeers,salt) => match addrFromSlice msg.ipAddr with
      | none => none
      | some addr =>
        let port := msg.ipPort.toUInt16
        -- the port before it is cut off
        if msg.ipPort = 0 then none
        else
          let ip : SignedIP :=
            ⟨⟨addr,port,msg.ipSigningTime⟩,msg.ipNodeIDSig,msg.ipBlsSig⟩
          if !ip.verify env then none
          else if !env.isBlsSignature msg.ipBlsSig then none
          else if env.shouldDisconnect msg.client ip then none
          else some ⟨msg.client,msg.trackedSubnets,knownPeers,salt,ip⟩

/-- The port matters through its low bits only, except that it is not zero. -/
theorem handleHandshake_port {env : PeerEnv K} {got : Bool} {msg : Handshake} {port : UInt32}
    (hport : port ≠ 0) (hmsg : msg.ipPort ≠ 0) (hlow : port.toUInt16 = msg.ipPort.toUInt16) :
    handleHandshake env got { msg with ipPort := port } = handleHandshake env got msg := by
  unfold handleHandshake
  simp only [hport,hmsg,hlow]
  rfl

theorem handleHandshake_ip {env : PeerEnv K} {got : Bool} {msg : Handshake} {greeting : Greeting}
    (h : handleHandshake env got msg = some greeting) :
    addrFromSlice msg.ipAddr = some greeting.ip.addr ∧ msg.ipPort ≠ 0 ∧
      greeting.ip.port = msg.ipPort.toUInt16 := by
  unfold handleHandshake at h
  iterate 5
    split at h
    · cases h
  split at h
  · cases h
  split at h
  · cases h
  next addr haddr =>
  dsimp only at h
  split at h
  · cases h
  next hport =>
  iterate 3
    split at h
    · cases h
  cases h
  exact ⟨haddr,hport,rfl⟩

/-! ## Peer lists -/

/-- `ips.ClaimedIPPort`, of which the tracker reads the node and the timestamp. -/
structure Claim (K : Type) where
  cert : Certificate K
  addr : Addr
  port : UInt16
  timestamp : UInt64
  signature : Bytes

structure ClaimedIPPortMsg where
  x509Certificate : Bytes
  ipAddr : Bytes
  ipPort : UInt32
  timestamp : UInt64
  signature : Bytes

def peerListMsg (claims : List (Claim K)) : List ClaimedIPPortMsg :=
  claims.map fun c => ⟨c.cert.raw,c.addr.as16,c.port.toUInt32,c.timestamp,c.signature⟩

/-- The loop of `handlePeerList`. Nothing is returned if the connection is closed. -/
def discoveredIPs (parseCertificate : Bytes → Option (Certificate K)) :
    List ClaimedIPPortMsg → Option (List (Claim K))
  | [] => some []
  | claimed :: rest => match parseCertificate claimed.x509Certificate with
    | none => none
    | some cert => match addrFromSlice claimed.ipAddr with
      | none => none
      | some addr =>
        let port := claimed.ipPort.toUInt16
        if port = 0 then none
        else match discoveredIPs parseCertificate rest with
          | none => none
          | some ips => some (⟨cert,addr,port,claimed.timestamp,claimed.signature⟩ :: ips)

/-- A handshake that was accepted, from a peer whose certificate was parsed in the upgrade of the
connection. -/
structure Accepted (parseCertificate : Bytes → Option (Certificate K)) where
  env : PeerEnv K
  msg : Handshake
  greeting : Greeting
  accepted : handleHandshake env false msg = some greeting
  parsed : parseCertificate env.cert.raw = some env.cert

namespace Accepted
variable {parseCertificate : Bytes → Option (Certificate K)}

def claim (a : Accepted parseCertificate) : Claim K :=
  ⟨a.env.cert,a.greeting.ip.addr,a.greeting.ip.port,a.greeting.ip.timestamp,
    a.greeting.ip.tlsSignature⟩

theorem claim_port (a : Accepted parseCertificate) :
    a.claim.port = 0 ↔ a.msg.ipPort.toNat % 2 ^ 16 = 0 := by
  rw [claim,(handleHandshake_ip a.accepted).2.2,← UInt16.toNat_inj,UInt32.toNat_toUInt16]
  rfl

theorem discoveredIPs_cons (a : Accepted parseCertificate) (rest : List ClaimedIPPortMsg) :
    discoveredIPs parseCertificate
        (⟨a.claim.cert.raw,a.claim.addr.as16,a.claim.port.toUInt32,a.claim.timestamp,
          a.claim.signature⟩ :: rest) =
      if a.claim.port = 0 then none
      else (discoveredIPs parseCertificate rest).map (a.claim :: ·) := by
  have haddr := addrFromSlice_as16 (handleHandshake_ip a.accepted).1
  have hparsed : parseCertificate a.claim.cert.raw = some a.claim.cert := a.parsed
  have haddr' : addrFromSlice a.claim.addr.as16 = some a.claim.addr := haddr
  rw [discoveredIPs,hparsed]
  simp only [haddr',UInt16.toUInt16_toUInt32]
  split
  · rfl
  · cases discoveredIPs parseCertificate rest <;> rfl

end Accepted

/-- A peer list made from accepted handshakes is read back as it was, unless one of the handshakes
had a port that is a multiple of `2^16`; then the connection to the node that sent the list is
closed. Such a handshake is accepted like any other with the same low bits. -/
theorem peerList_of_handshakes (parseCertificate : Bytes → Option (Certificate K))
    (peers : List (Accepted parseCertificate)) :
    (discoveredIPs parseCertificate (peerListMsg (peers.map Accepted.claim)) = none ↔
      ∃ a ∈ peers, a.msg.ipPort.toNat % 2 ^ 16 = 0) ∧
    ((∀ a ∈ peers, a.msg.ipPort.toNat % 2 ^ 16 ≠ 0) →
      discoveredIPs parseCertificate (peerListMsg (peers.map Accepted.claim)) =
        some (peers.map Accepted.claim)) ∧
    ∀ a ∈ peers, ∀ port : UInt32, port ≠ 0 →
      port.toNat % 2 ^ 16 = a.msg.ipPort.toNat % 2 ^ 16 →
        handleHandshake a.env false { a.msg with ipPort := port } = some a.greeting := by
  have hread : (∃ a ∈ peers, a.msg.ipPort.toNat % 2 ^ 16 = 0) ∧
      discoveredIPs parseCertificate (peerListMsg (peers.map Accepted.claim)) = none ∨
      (∀ a ∈ peers, a.msg.ipPort.toNat % 2 ^ 16 ≠ 0) ∧
      discoveredIPs parseCertificate (peerListMsg (peers.map Accepted.claim)) =
        some (peers.map Accepted.claim) := by
    induction peers with
    | nil => exact .inr ⟨by simp,rfl⟩
    | cons a peers ih =>
      have hcons := a.discoveredIPs_cons (peerListMsg (peers.map Accepted.claim))
      rw [List.map_cons,peerListMsg,List.map_cons]
      rw [peerListMsg] at hcons ih
      rw [hcons]
      by_cases hport : a.claim.port = 0
      · exact .inl ⟨⟨a,List.mem_cons_self,a.claim_port.mp hport⟩,if_pos hport⟩
      rw [if_neg hport]
      rcases ih with ⟨⟨b,hb,hzero⟩,hnone⟩ | ⟨hall,hsome⟩
      · exact .inl ⟨⟨b,List.mem_cons_of_mem _ hb,hzero⟩,by rw [hnone]; rfl⟩
      · refine .inr ⟨?_,by rw [hsome]; rfl⟩
        intro b hb
        rcases List.mem_cons.mp hb with rfl | hb
        · exact fun hzero => hport (b.claim_port.mpr hzero)
        · exact hall b hb
  refine ⟨?_,?_,?_⟩
  · rcases hread with ⟨hzero,hnone⟩ | ⟨hall,hsome⟩
    · exact iff_of_true hnone hzero
    · refine iff_of_false (by rw [hsome]; exact Option.some_ne_none _) ?_
      rintro ⟨a,ha,hzero⟩
      exact hall a ha hzero
  · intro hall
    rcases hread with ⟨⟨a,ha,hzero⟩,_⟩ | ⟨_,hsome⟩
    · exact absurd hzero (hall a ha)
    · exact hsome
  · intro a _ port hport hlow
    have hlow' : port.toUInt16 = a.msg.ipPort.toUInt16 := by
      rw [← UInt16.toNat_inj,UInt32.toNat_toUInt16,UInt32.toNat_toUInt16,hlow]
    rw [handleHandshake_port hport (handleHandshake_ip a.accepted).2.1 hlow',a.accepted]

namespace Handshake.Sample

def parseCertificate (raw : Bytes) : Option (Certificate Unit) := some ⟨raw,()⟩

def env : PeerEnv Unit where
  cert := ⟨[],()⟩
  networkID := 1
  clockAgrees := fun _ => true
  maxUnixTimestamp := 10
  checkSignature := fun _ _ _ => true
  isBlsSignature := fun _ => true
  shouldDisconnect := fun _ _ => false

def msg : Handshake where
  networkID := 1
  myTime := 5
  client := ⟨"",1,2,3⟩
  trackedSubnets := []
  knownPeers := none
  ipAddr := [127,0,0,1]
  ipPort := 65536
  ipSigningTime := 5
  ipNodeIDSig := []
  ipBlsSig := []
  allSubnets := false

theorem msg_closes : ∃ a : Accepted parseCertificate, a.msg = msg ∧
    discoveredIPs parseCertificate (peerListMsg [a.claim]) = none := by
  obtain ⟨greeting,hgreeting⟩ : ∃ greeting, handleHandshake env false msg = some greeting :=
    ⟨_,rfl⟩
  have hport : msg.ipPort.toNat % 2 ^ 16 = 0 := by decide
  refine ⟨⟨env,msg,greeting,hgreeting,rfl⟩,rfl,?_⟩
  exact (peerList_of_handshakes parseCertificate [_]).1.mpr ⟨_,List.mem_singleton_self _,hport⟩

end Handshake.Sample
end Landslide.Net
