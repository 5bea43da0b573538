import Wyrd.Control.Message
import Wyrd.Lib.Codec
import Wyrd.Lib.Observed

/-! # The bytes of a serving address

A snapshot announcement carries its author's route as opaque bytes. The decoder collects what
it reads into sets, and then demands that these encode to the bytes it was given. The encoder
writes the ip and port of an IPv6 socket but not its scope, so a device that listens at one
link-local address and port in two scopes announces a route nobody can read.
-/

namespace Wyrd.Bulk

open List Reader

variable {PublicKey RelayUrl : Type} {bytes follow : Bytes}

/-- Endpoint keys and relay URLs, with their parsers. -/
structure Iroh (PublicKey RelayUrl : Type) where
  asBytes : PublicKey → Bytes
  fromBytes : Bytes → Option PublicKey
  text : RelayUrl → Bytes
  fromStr : Bytes → Option RelayUrl

variable {iroh : Iroh PublicKey RelayUrl}

def Iroh.order (iroh : Iroh PublicKey RelayUrl) (url : RelayUrl) : List Nat :=
  (iroh.text url).map UInt8.toNat

/-- A key has 32 octets, a URL's text less than 4 GiB, and both read back. -/
structure Iroh.Lawful (iroh : Iroh PublicKey RelayUrl) : Prop where
  keyLength : ∀ id, (iroh.asBytes id).length = 32
  keyReads : ∀ id, iroh.fromBytes (iroh.asBytes id) = some id
  urlLength : ∀ url, (iroh.text url).length < 2 ^ 32
  urlReads : ∀ url, iroh.fromStr (iroh.text url) = some url

inductive SocketAddr
  | v4 (ip : Fin (2 ^ 32)) (port : UInt16)
  | v6 (ip : Fin (2 ^ 128)) (port : UInt16) (flowinfo scopeId : UInt32)
deriving DecidableEq

local instance ipv4s : NeZero (2 ^ 32) := ⟨(Nat.two_pow_pos 32).ne'⟩

local instance ipv6s : NeZero (2 ^ 128) := ⟨(Nat.two_pow_pos 128).ne'⟩

namespace SocketAddr

/-- What the order of the addresses compares, field by field. -/
def key : SocketAddr → List Nat
  | v4 ip port => [4, ip, port.toNat]
  | v6 ip port flowinfo scopeId => [6, ip, port.toNat, flowinfo.toNat, scopeId.toNat]

def bare : SocketAddr → SocketAddr
  | v4 ip port => v4 ip port
  | v6 ip port _ _ => v6 ip port 0 0

def encode : SocketAddr → Bytes
  | v4 ip port => 0x04 :: (beBytes 4 ip ++ leBytes 2 port.toNat)
  | v6 ip port _ _ => 0x06 :: (beBytes 16 ip ++ leBytes 2 port.toNat)

def decode : Reader SocketAddr := do
  let family ← byte
  if family = 0x04 then
    let ip ← fixed 4 (2 ^ 32)
    let port ← word 2
    return v4 ip (.ofNat port)
  else if family = 0x06 then
    let ip ← fixed 16 (2 ^ 128)
    let port ← word 2
    return v6 ip (.ofNat port) 0 0
  else lift none

lemma key_injective : Function.Injective key := by
  intro a b hs
  cases a <;> cases b <;> simp [key, Fin.val_inj, UInt16.toNat_inj, UInt32.toNat_inj] at hs ⊢ <;>
    exact hs

@[simp] lemma bare_bare (socket : SocketAddr) : socket.bare.bare = socket.bare := by
  cases socket <;> rfl

@[simp] lemma encode_bare (socket : SocketAddr) : socket.bare.encode = socket.encode := by
  cases socket <;> rfl

lemma reads (socket : SocketAddr) : Reads decode socket.encode (some socket.bare) := by
  have port (n : UInt16) : Reads (word 2) (leBytes 2 n.toNat) (some n.toNat) := by
    apply reads_word
    have := n.toNat_lt
    omega
  cases socket with
  | v4 ip n =>
    apply (reads_byte 0x04).bind
    have hf := (port n).map fun port => v4 ip (.ofNat port)
    rw [UInt16.ofNat_toNat] at hf
    exact (reads_fixed (by decide) ip).bind hf
  | v6 ip n =>
    apply (reads_byte 0x06).bind
    have hf := (port n).map fun port => v6 ip (.ofNat port) 0 0
    rw [UInt16.ofNat_toNat] at hf
    exact (reads_fixed (by decide) ip).bind hf

lemma decode_some (hok : decode bytes = some (socket, follow)) :
    bytes = socket.encode ++ follow ∧ socket.bare = socket := by
  obtain ⟨family, middle, hh, there⟩ := bind_some.mp hok
  have hh : bytes = family :: middle := spells_byte _ _ _ hh
  split_ifs at there with six six
  on_goal 3 => cases there
  all_goals
    obtain ⟨ip, _, hip, there⟩ := bind_some.mp there
    obtain ⟨port, _, hport, ⟨⟩⟩ := bind_some.mp there
    obtain ⟨rfl, hs⟩ := word_some hport
    have hip := spells_fixed (by decide) _ _ _ hip
    rw [nil_append] at hip
    have hport : port % 65536 = port := Nat.mod_eq_of_lt hs
    exact ⟨by simp [hh, hip, six, encode, hport], rfl⟩

lemma reads_bare (sockets : List SocketAddr) :
    ∀ socket ∈ sockets.map bare, Reads decode socket.encode (some socket) := by
  intro socket hm
  obtain ⟨a, -, rfl⟩ := mem_map.mp hm
  have hf := reads a.bare
  rwa [bare_bare] at hf

lemma key_bare_lt (hb : key a < key b) (hne : a.bare ≠ b.bare) : key a.bare < key b.bare := by
  cases a <;> cases b <;> simp [key, bare, cons_lt_cons_iff, ← UInt16.toNat_inj] at hb hne ⊢ <;>
    grind

/-- What sockets write one behind the other tells their ips and ports. -/
lemma bare_of_encode {a b : List SocketAddr} (hs : a.flatMap encode = b.flatMap encode) : a.map bare = b.map bare := by
  induction a generalizing b with
  | nil =>
    cases b with
    | nil => rfl
    | cons socket => cases socket <;> cases hs
  | cons head a ih =>
    have hh := reads head (a.flatMap encode)
    rw [← flatMap_cons, hs] at hh
    cases b with
    | nil => cases hh
    | cons other b =>
      rw [flatMap_cons, reads other] at hh
      simp only [Option.map_some, Option.some.injEq, Prod.mk.injEq] at hh
      rw [map_cons, map_cons, hh.1, ih hh.2.symm]

end SocketAddr

open SocketAddr (bare key bare_of_encode)

def nodeAddrVersion : UInt8 := 0x01

/-- An endpoint's key and transport addresses, those of each kind in their order. -/
structure EndpointAddr (iroh : Iroh PublicKey RelayUrl) where
  id : PublicKey
  ips : Observed SocketAddr.key
  relays : Observed iroh.order

def relayBytes (iroh : Iroh PublicKey RelayUrl) (url : RelayUrl) : Bytes :=
  leBytes 4 (iroh.text url).length ++ iroh.text url

def encodeNodeAddr (address : EndpointAddr iroh) : Bytes :=
  [nodeAddrVersion] ++ (iroh.asBytes address.id ++
    ((leBytes 4 address.ips.docs.length ++ address.ips.docs.flatMap SocketAddr.encode) ++
      (leBytes 4 address.relays.docs.length ++ address.relays.docs.flatMap (relayBytes iroh))))

def readRelay (iroh : Iroh PublicKey RelayUrl) : Reader RelayUrl := do
  let url ← blob
  lift (iroh.fromStr url)

def readNodeAddr (iroh : Iroh PublicKey RelayUrl) : Reader (EndpointAddr iroh) := do
  let version ← byte
  require (version = nodeAddrVersion)
  let idBytes ← take 32
  let id ← lift (iroh.fromBytes idBytes)
  let ips ← counted SocketAddr.decode
  let relays ← counted (readRelay iroh)
  return ⟨id, .ofList _ ips, .ofList _ relays⟩

def decodeNodeAddr (iroh : Iroh PublicKey RelayUrl) (bytes : Bytes) : Option (EndpointAddr iroh) :=
  if bytes.length < 37 then none
  else (parse (readNodeAddr iroh) bytes).filter fun address => encodeNodeAddr address = bytes

variable {address : EndpointAddr iroh}

/-- Decoding finds the endpoint's key again, its ips with their ports, and its relays. -/
def Recovered (address : EndpointAddr iroh) : Prop :=
  ∃ found, decodeNodeAddr iroh (encodeNodeAddr address) = some found ∧ found.id = address.id ∧
    (∀ socket, socket ∈ found.ips.docs.map bare ↔ socket ∈ address.ips.docs.map bare) ∧
    found.relays = address.relays

/-- The counts fit 32 bits, and no two sockets differ in flow and scope alone. -/
abbrev Unscoped (address : EndpointAddr iroh) : Prop :=
  address.ips.docs.length < 2 ^ 32 ∧ address.relays.docs.length < 2 ^ 32 ∧
    (address.ips.docs.map bare).Nodup

lemma decodeNodeAddr_some : decodeNodeAddr iroh bytes = some address ↔
    37 ≤ bytes.length ∧ parse (readNodeAddr iroh) bytes = some address ∧
      encodeNodeAddr address = bytes := by
  unfold decodeNodeAddr
  split_ifs with hl
  · simp; omega
  · simp [Option.filter_eq_some_iff]; omega

lemma reads_relay (laws : iroh.Lawful) (url : RelayUrl) :
    Reads (readRelay iroh) (relayBytes iroh url) (some url) := by
  have hf : Reads (lift (iroh.fromStr (iroh.text url))) [] (some url) := by
    rw [laws.urlReads]
    exact reads_lift _
  unfold readRelay relayBytes
  rw [← append_nil (_ ++ _)]
  exact (reads_blob (laws.urlLength url)).bind hf

/-- The address as its bytes tell it. -/
def EndpointAddr.bared (address : EndpointAddr iroh) : EndpointAddr iroh :=
  ⟨address.id, .ofList _ (address.ips.docs.map bare), address.relays⟩

lemma reads_nodeAddr (laws : iroh.Lawful) (few : address.ips.docs.length < 2 ^ 32)
    (short : address.relays.docs.length < 2 ^ 32) :
    Reads (readNodeAddr iroh) (encodeNodeAddr address) (some address.bared) := by
  have ips : Reads (counted SocketAddr.decode) (leBytes 4 address.ips.docs.length ++
      address.ips.docs.flatMap SocketAddr.encode) (some (address.ips.docs.map bare)) := by
    have hf := reads_counted (by rwa [length_map]) (SocketAddr.reads_bare address.ips.docs)
    simpa [flatMap_map] using hf
  have relays := reads_counted short fun url _ => reads_relay laws url
  unfold readNodeAddr encodeNodeAddr
  apply (reads_byte _).bind
  apply (reads_require rfl).skip
  apply (reads_take (laws.keyLength _)).bind
  rw [laws.keyReads]
  apply (reads_lift _).skip
  apply ips.bind
  have hf := relays.map fun relays => (⟨address.id, .ofList _ (address.ips.docs.map bare),
    .ofList _ relays⟩ : EndpointAddr iroh)
  rwa [Observed.ofList_docs] at hf

lemma readRelay_shorter (hok : readRelay iroh bytes = some (url, follow)) :
    follow.length < bytes.length := by
  obtain ⟨text, middle, hh, there⟩ := bind_some.mp hok
  have hb := congrArg length (spells_blob _ _ _ hh)
  simp only [nil_append, length_append, length_leBytes] at hb
  cases hp : iroh.fromStr text with
  | none => rw [hp] at there; cases there
  | some => rw [hp] at there; cases there; omega

lemma order_injective (laws : iroh.Lawful) : Function.Injective iroh.order := by
  intro a b hs
  have hs := map_injective_iff.mpr (fun _ _ => UInt8.toNat_inj.mp) hs
  have := laws.urlReads a
  rw [hs, laws.urlReads b] at this
  exact (Option.some.inj this).symm

/-- What is decoded lists no more than the counts say, and no scopes. -/
lemma parse_fits (laws : iroh.Lawful) (parsed : parse (readNodeAddr iroh) bytes = some address) :
    address.ips.docs.length < 2 ^ 32 ∧ address.relays.docs.length < 2 ^ 32 ∧
      address.ips.docs.map bare = address.ips.docs := by
  obtain ⟨_, _, -, hok⟩ := bind_some.mp (parse_some.mp parsed)
  obtain ⟨_, _, -, hok⟩ := bind_some.mp hok
  obtain ⟨_, _, -, hok⟩ := bind_some.mp hok
  obtain ⟨id, _, -, hok⟩ := bind_some.mp hok
  obtain ⟨ips, _, hips, hok⟩ := bind_some.mp hok
  obtain ⟨relays, _, related, ⟨⟩⟩ := bind_some.mp hok
  obtain ⟨count, _, hc, hips⟩ := bind_some.mp hips
  obtain ⟨width, _, hw, related⟩ := bind_some.mp related
  obtain ⟨rfl, -, hbare⟩ := times_some (fun _ _ _ => SocketAddr.decode_some) hips
  have few := (Observed.length_ofList SocketAddr.key_injective ips).trans_lt (word_some hc).2
  have short := Observed.length_ofList (order_injective laws) relays
  rw [length_times related] at short
  refine ⟨few, short.trans_lt (word_some hw).2, (map_congr_left ?_).trans (map_id _)⟩
  intro socket hm
  exact hbare socket ((Observed.mem_ofList SocketAddr.key_injective).mp hm)

lemma Unscoped.recovered (laws : iroh.Lawful) (unnamed : Unscoped address) : Recovered address := by
  obtain ⟨few, short, ho⟩ := unnamed
  have rises : (address.ips.docs.map bare).Pairwise (fun a b => key a < key b) := by
    have := pairwise_map.mp ho
    exact pairwise_map.mpr (address.ips.ascending.imp₂ (fun _ _ => SocketAddr.key_bare_lt) this)
  have hs := Observed.ofList_docs ⟨_, rises⟩
  have parsed := parse_of_reads (reads_nodeAddr laws few short)
  have hw : 37 ≤ (encodeNodeAddr address).length := by
    simp [encodeNodeAddr, laws.keyLength]
    omega
  have hsame : encodeNodeAddr address.bared = encodeNodeAddr address := by
    simp [encodeNodeAddr, EndpointAddr.bared, hs, flatMap_map]
  exact ⟨address.bared, decodeNodeAddr_some.mpr ⟨hw, parsed, hsame⟩, rfl,
    by simp [EndpointAddr.bared, hs], rfl⟩

lemma Recovered.unscoped (laws : iroh.Lawful) (noted : Recovered address) : Unscoped address := by
  obtain ⟨found, hd, self, -, related⟩ := noted
  obtain ⟨-, hp, hs⟩ := decodeNodeAddr_some.mp hd
  obtain ⟨few, short, hbare⟩ := parse_fits laws hp
  unfold encodeNodeAddr at hs
  rw [self, related] at hs
  have hs := append_cancel_right (append_cancel_left (append_cancel_left hs))
  have hs := bare_of_encode (append_inj_right hs (by simp))
  rw [hbare] at hs
  have lengths := congrArg length hs
  rw [length_map] at lengths
  refine ⟨by omega, related ▸ short, ?_⟩
  rw [← hs]
  exact found.ips.ascending.imp fun hb hs => hb.ne (congrArg key hs)

/-- An address is recovered from its encoding exactly if its counts fit 32 bits and no two of its
    IPv6 sockets share ip and port. Whatever decodes is the one encoding of what it decodes to,
    and neither loop of the decoder outruns its bytes, whatever counts they state. -/
theorem route_recovered_iff (laws : iroh.Lawful) :
    (∀ address : EndpointAddr iroh, Recovered address ↔ Unscoped address) ∧
    (∀ bytes address, decodeNodeAddr iroh bytes = some address → encodeNodeAddr address = bytes) ∧
    (∀ bytes other address, decodeNodeAddr iroh bytes = some address →
      decodeNodeAddr iroh other = some address → bytes = other) ∧
    ∀ count bytes, rounds SocketAddr.decode count bytes ≤ bytes.length + 1 ∧
      rounds (readRelay iroh) count bytes ≤ bytes.length + 1 := by
  have spells : ∀ bytes address, decodeNodeAddr iroh bytes = some address →
      encodeNodeAddr address = bytes := fun _ _ hd => (decodeNodeAddr_some.mp hd).2.2
  refine ⟨fun address => ⟨Recovered.unscoped laws, Unscoped.recovered laws⟩, spells, ?_, ?_⟩
  · intro bytes other address hf hs
    rw [← spells _ _ hf, spells _ _ hs]
  · intro count bytes
    constructor
    · apply rounds_le
      intro bytes socket follow hok
      rw [(SocketAddr.decode_some hok).1]
      cases socket <;> simp [SocketAddr.encode] <;> omega
    · exact rounds_le (fun _ _ _ => readRelay_shorter) count bytes

def plainIroh : Iroh Digest UInt8 where
  asBytes := fun id => beBytes 32 id
  fromBytes := fun bytes => some (Fin.ofNat _ (ofBe bytes))
  text := fun url => [url]
  fromStr := head?

lemma plainIroh_lawful : plainIroh.Lawful where
  keyLength _ := length_beBytes ..
  keyReads id := by
    have fits : (id : Nat) < 256 ^ 32 := id.isLt
    simp only [plainIroh, ofBe_beBytes fits, Fin.ofNat_val_eq_self]
  urlLength _ := by simp [plainIroh]
  urlReads _ := rfl

def linkLocal (scopes : List UInt32) : EndpointAddr plainIroh :=
  ⟨7, .ofList _ (scopes.map (.v6 (0xfe80 * 2 ^ 112 + 1) 4242 0)), .ofList _ [5]⟩

theorem route_recovered_iff_linkLocal : plainIroh.Lawful ∧ Recovered (linkLocal [2]) :=
  ⟨plainIroh_lawful, ((route_recovered_iff plainIroh_lawful).1 _).mpr (by decide +kernel)⟩

theorem two_scopes_undecodable :
    decodeNodeAddr plainIroh (encodeNodeAddr (linkLocal [2, 3])) = none ∧
      ¬ Recovered (linkLocal [2, 3]) := by
  have hnone : decodeNodeAddr plainIroh (encodeNodeAddr (linkLocal [2, 3])) = none := by
    decide +kernel
  refine ⟨hnone, ?_⟩
  intro ⟨found, hd, _⟩
  rw [hnone] at hd
  cases hd

end Wyrd.Bulk
