import Mathlib.Data.BitVec
import Mathlib.Data.List.Basic

namespace NfpDriver.Nfdk

open BitVec List

def u32 (n : Nat) : Nat := n % 2 ^ 32

def divRoundUp (n d : Nat) : Nat := u32 (n + d - 1) / d

def nfpNfdkHeadlenToSegs (headlen : Nat) : Nat := divRoundUp (u32 (headlen + 16384 - 4096)) 16384

inductive DescType where
  | gather
  | tso
  | simple
  deriving DecidableEq, Repr

def DescType.code : DescType → BitVec 16
  | .gather => 1
  | .tso => 2
  | .simple => 8

abbrev dmaLenHead : BitVec 16 := 0xfff

abbrev dmaLen : BitVec 16 := 0x3fff

abbrev eop : BitVec 16 := 0x4000

inductive Desc where
  | nop
  | data (dmaAddr : Nat) (dmaLenType : BitVec 16)
  | metadata (raw : BitVec 64)
  | lso (raw : BitVec 64)
  deriving DecidableEq, Repr

def setDmaAddr48b (dmaAddr : Nat) : Nat := dmaAddr % 2 ^ 48

def dataDescs : Nat → Nat → Nat → List Desc
  | 0, _, _ => []
  | fuel + 1, dmaAddr, len =>
    if len = 0 then []
    else
      let dlen := (len - 1) % 2 ^ 14
      .data (setDmaAddr48b dmaAddr) (BitVec.ofNat 16 dlen) :: dataDescs fuel (dmaAddr + dlen + 1) (len - 1 - dlen)

def headDescs (type : DescType) (dmaAddr headlen : Nat) : List Desc :=
  let len := u32 (headlen + 2 ^ 32 - 1)
  let dlen := min len 0xfff
  .data (setDmaAddr48b dmaAddr) (BitVec.ofNat 16 dlen ||| type.code <<< 12) ::
    dataDescs (len - dlen) (dmaAddr + dlen + 1) (len - dlen)

def setEop : List Desc → List Desc
  | [] => []
  | [.data dmaAddr dmaLenType] => [.data dmaAddr (dmaLenType ||| eop)]
  | d :: ds => d :: setEop ds

def Desc.bytes (mask : BitVec 16) : Desc → List Nat
  | .data dmaAddr dmaLenType => List.range' dmaAddr ((dmaLenType &&& mask).toNat + 1)
  | _ => []

def Desc.hasEop : Desc → Bool
  | .data _ dmaLenType => dmaLenType &&& eop ≠ 0
  | _ => false

def Desc.isData : Desc → Bool
  | .data _ _ => true
  | _ => false

def covered : List Desc → List Nat
  | [] => []
  | d :: ds => d.bytes dmaLenHead ++ ds.flatMap (Desc.bytes dmaLen)

structure Gso where
  segs : Nat
  hdrlen : Nat
  deriving DecidableEq, Repr

structure Skb where
  uid : Nat
  headroom : Nat
  headlen : Nat
  frags : List Nat
  gso : Option Gso
  head_pos : 1 ≤ headlen
  frags_pos : ∀ size ∈ frags, 1 ≤ size
  small : headroom + headlen + frags.sum < 2 ^ 31
  deriving DecidableEq

namespace Skb

theorem fragless : ∀ size ∈ ([] : List Nat), 1 ≤ size := fun _ h => (List.not_mem_nil h).elim

def len (skb : Skb) : Nat := skb.headlen + skb.frags.sum

def linearize (skb : Skb) : Skb where
  uid := skb.uid
  headroom := skb.headroom
  headlen := skb.len
  frags := []
  gso := skb.gso
  head_pos := Nat.le_trans skb.head_pos (Nat.le_add_right _ _)
  frags_pos := fragless
  small := by
    have h := skb.small
    simp only [len, List.sum_nil]
    omega

def push (skb : Skb) (n : Nat) (h : n ≤ skb.headroom) : Skb where
  uid := skb.uid
  headroom := skb.headroom - n
  headlen := n + skb.headlen
  frags := skb.frags
  gso := skb.gso
  head_pos := Nat.le_trans skb.head_pos (Nat.le_add_left _ _)
  frags_pos := skb.frags_pos
  small := by
    have hs := skb.small
    omega

def segs (skb : Skb) : Nat :=
  skb.frags.foldl (fun nDescs size => nDescs + divRoundUp size 16384) (nfpNfdkHeadlenToSegs skb.headlen)

def gsoDescs (skb : Skb) : Nat := if skb.gso.isSome then 1 else 0

def type (skb : Skb) : DescType :=
  if skb.gso.isSome then .tso
  else if skb.frags = [] ∧ skb.headlen ≤ 4096 then .simple
  else .gather

end Skb

def fragDescs (sizes addrs : List Nat) : List Desc := (sizes.zip addrs).flatMap fun f => dataDescs f.1 f.2 f.1

def fragBytes (sizes addrs : List Nat) : List Nat := (sizes.zip addrs).flatMap fun f => List.range' f.2 f.1

structure Exact (skb : Skb) (head : Nat) (addrs : List Nat) (descs : List Desc) : Prop where
  split : ∃ first rest tail, descs = first :: rest ++ tail ∧
    covered (first :: rest) = List.range' head skb.headlen ++ fragBytes skb.frags addrs ∧
    (first.bytes dmaLenHead).length = min skb.headlen 4096 ∧
    (∀ d ∈ rest, (d.bytes dmaLen).length ≤ 16384) ∧
    (first :: rest).map Desc.hasEop = List.replicate rest.length false ++ [true] ∧
    (∀ d ∈ first :: rest, d.isData = true) ∧
    match skb.gso with
    | none => ∃ metadata, tail = [.metadata metadata]
    | some _ => ∃ metadata lso, tail = [.metadata metadata, .lso lso]
  slots : descs.length = 1 + skb.segs + skb.gsoDescs

variable {dlen n headlen len addr : Nat} {addrs : List Nat} {skb : Skb}

section Fields

variable {x y m : BitVec 16}

theorem field_masked (hn : n ≤ 16) (h : dlen < 2 ^ n) :
    BitVec.ofNat 16 dlen &&& BitVec.ofNat 16 (2 ^ n - 1) = BitVec.ofNat 16 dlen := by
  have hp : 2 ^ n ≤ 2 ^ 16 := Nat.pow_le_pow_right (by decide) hn
  apply eq_of_toNat_eq
  rw [toNat_and, toNat_ofNat, toNat_ofNat, Nat.mod_eq_of_lt (by omega), Nat.mod_eq_of_lt (by omega),
    Nat.and_two_pow_sub_one_eq_mod, Nat.mod_eq_of_lt h]

theorem or_disjoint (h : y &&& m = 0) : (x ||| y) &&& m = x &&& m := by
  rw [and_or_distrib_right, h]
  exact or_zero

theorem masked_disjoint (hx : x &&& y = x) (h : y &&& m = 0) : x &&& m = 0 := by
  rw [← hx, BitVec.and_assoc, h]
  exact and_zero

theorem type_disjoint (type : DescType) : type.code <<< 12 &&& dmaLenHead = 0 ∧ type.code <<< 12 &&& eop = 0 := by
  cases type <;> decide

theorem field_toNat (h : dlen < 2 ^ 16) : (BitVec.ofNat 16 dlen).toNat = dlen := by
  rw [toNat_ofNat, Nat.mod_eq_of_lt h]

end Fields

section Loop

theorem divRoundUp_eq {d : Nat} (h : n + d ≤ 2 ^ 32) : divRoundUp n d = (n + d - 1) / d := by
  rw [divRoundUp, u32, Nat.mod_eq_of_lt (by omega)]

theorem headlenToSegs_eq (h : headlen < 2 ^ 31) : nfpNfdkHeadlenToSegs headlen = (headlen + 28671) / 16384 := by
  rw [nfpNfdkHeadlenToSegs, u32, Nat.mod_eq_of_lt (by omega), divRoundUp_eq (by omega)]
  exact congrArg (· / 16384) (by omega)

theorem segs_eq (skb : Skb) :
    skb.segs = nfpNfdkHeadlenToSegs skb.headlen + (skb.frags.map fun size => divRoundUp size 16384).sum := by
  have hfold (sizes : List Nat) (n : Nat) : sizes.foldl (fun nDescs size => nDescs + divRoundUp size 16384) n =
      n + (sizes.map fun size => divRoundUp size 16384).sum := by
    induction sizes generalizing n with
    | nil => rfl
    | cons size sizes ih => rw [foldl_cons, ih, map_cons, sum_cons, add_assoc]
  exact hfold skb.frags _

theorem dataDescs_length (fuel addr : Nat) (hfuel : len ≤ fuel) :
    (dataDescs fuel addr len).length = (len + 16383) / 16384 := by
  induction fuel generalizing addr len with
  | zero =>
    obtain rfl := Nat.le_zero.mp hfuel
    rfl
  | succ fuel ih =>
    rw [dataDescs]
    by_cases hlen : len = 0
    · rw [if_pos hlen, hlen]
      rfl
    · have hle : (len - 1) % 2 ^ 14 ≤ len - 1 := Nat.mod_le _ _
      rw [if_neg hlen, length_cons, ih _ (by omega)]
      omega

structure Segments (ds : List Desc) (addr len : Nat) : Prop where
  bytes : ds.flatMap (Desc.bytes dmaLen) = List.range' addr len
  plain : ∀ d ∈ ds, d.isData = true ∧ d.hasEop = false

theorem dataDescs_segments (fuel : Nat) (hfuel : len ≤ fuel) (haddr : addr + len ≤ 2 ^ 48) :
    Segments (dataDescs fuel addr len) addr len := by
  induction fuel generalizing addr len with
  | zero =>
    obtain rfl := Nat.le_zero.mp hfuel
    exact ⟨rfl, fun d hd => (not_mem_nil hd).elim⟩
  | succ fuel ih =>
    rw [dataDescs]
    by_cases hlen : len = 0
    · rw [if_pos hlen, hlen]
      exact ⟨rfl, fun d hd => (not_mem_nil hd).elim⟩
    rw [if_neg hlen]
    obtain ⟨dlen, hdlen⟩ := @exists_eq' _ ((len - 1) % 2 ^ 14)
    have hlt : dlen < 2 ^ 14 := hdlen ▸ Nat.mod_lt _ (by decide)
    have hmask := field_masked (by decide) hlt
    have hrest : Segments (dataDescs fuel (addr + dlen + 1) (len - 1 - dlen)) (addr + dlen + 1) (len - 1 - dlen) :=
      ih (by omega) (by omega)
    simp only [hdlen]
    refine ⟨?_, ?_⟩
    · have hsplit : len = dlen + 1 + (len - 1 - dlen) := by omega
      have hfield : (BitVec.ofNat 16 dlen &&& dmaLen).toNat = dlen :=
        (congrArg BitVec.toNat hmask).trans (field_toNat (by omega))
      rw [flatMap_cons, hrest.bytes, Desc.bytes, hfield, setDmaAddr48b, Nat.mod_eq_of_lt (by omega), add_assoc addr,
        List.range'_append_1, ← hsplit]
    · intro d hd
      rcases mem_cons.mp hd with rfl | hd
      · have hz : BitVec.ofNat 16 dlen &&& eop = 0 := masked_disjoint hmask (by decide)
        exact ⟨rfl, by rw [Desc.hasEop, hz]; rfl⟩
      · exact hrest.plain d hd

theorem fragDescs_cons (size addr : Nat) (sizes addrs : List Nat) :
    fragDescs (size :: sizes) (addr :: addrs) = dataDescs size addr size ++ fragDescs sizes addrs := rfl

theorem fragDescs_length_le (sizes addrs : List Nat) (hsum : sizes.sum < 2 ^ 31) :
    (fragDescs sizes addrs).length ≤ (sizes.map fun size => divRoundUp size 16384).sum ∧
      (addrs.length = sizes.length →
        (fragDescs sizes addrs).length = (sizes.map fun size => divRoundUp size 16384).sum) := by
  induction sizes generalizing addrs with
  | nil => exact ⟨Nat.zero_le _, fun _ => rfl⟩
  | cons size sizes ih =>
    rw [sum_cons] at hsum
    cases addrs with
    | nil => exact ⟨Nat.zero_le _, fun h => (nomatch h)⟩
    | cons addr addrs =>
      obtain ⟨hle, heq⟩ := ih addrs (by omega)
      have hdiv : divRoundUp size 16384 = (size + 16383) / 16384 := divRoundUp_eq (by omega)
      rw [fragDescs_cons, length_append, dataDescs_length size addr le_rfl, map_cons, sum_cons, hdiv]
      exact ⟨Nat.add_le_add_left hle _, fun h => congrArg (_ + ·) (heq (Nat.succ.inj h))⟩

theorem fragDescs_segments {sizes : List Nat} (hlen : addrs.length = sizes.length)
    (haddr : ∀ f ∈ sizes.zip addrs, f.2 + f.1 ≤ 2 ^ 48) :
    (fragDescs sizes addrs).flatMap (Desc.bytes dmaLen) = fragBytes sizes addrs ∧
      ∀ d ∈ fragDescs sizes addrs, d.isData = true ∧ d.hasEop = false := by
  induction sizes generalizing addrs with
  | nil => exact ⟨rfl, fun d hd => (not_mem_nil hd).elim⟩
  | cons size sizes ih =>
    cases addrs with
    | nil => cases hlen
    | cons addr addrs =>
      obtain ⟨hbytes, hplain⟩ := ih (Nat.succ.inj hlen) fun f hf => haddr f (mem_cons_of_mem _ hf)
      have hseg := dataDescs_segments size (Nat.le_refl size) (haddr (size, addr) mem_cons_self)
      rw [fragDescs_cons]
      refine ⟨?_, ?_⟩
      · rw [flatMap_append, hseg.bytes, hbytes]
        rfl
      · intro d hd
        rcases mem_append.mp hd with hd | hd
        · exact hseg.plain d hd
        · exact hplain d hd

end Loop

section Packet

theorem setEop_cons_cons (d e : Desc) (es : List Desc) : setEop (d :: e :: es) = d :: setEop (e :: es) := by
  cases d <;> rfl

theorem eop_bytes {mask : BitVec 16} (h : eop &&& mask = 0) (addr : Nat) (lenType : BitVec 16) :
    (Desc.data addr (lenType ||| eop)).bytes mask = (Desc.data addr lenType).bytes mask := by
  rw [Desc.bytes, Desc.bytes, or_disjoint h]

structure Ended (first : Desc) (rest : List Desc) (first' : Desc) (rest' : List Desc) : Prop where
  headBytes : first'.bytes dmaLenHead = first.bytes dmaLenHead
  firstBytes : first'.bytes dmaLen = first.bytes dmaLen
  restBytes : rest'.flatMap (Desc.bytes dmaLen) = rest.flatMap (Desc.bytes dmaLen)
  length : rest'.length = rest.length
  eop : (first' :: rest').map Desc.hasEop = List.replicate rest.length false ++ [true]
  data : ∀ d ∈ first' :: rest', d.isData = true

theorem setEop_ended {first : Desc} {rest : List Desc} (h : ∀ d ∈ first :: rest, d.isData = true ∧ d.hasEop = false) :
    ∃ first' rest', setEop (first :: rest) = first' :: rest' ∧ Ended first rest first' rest' := by
  induction rest generalizing first with
  | nil =>
    obtain ⟨hdata, hplain⟩ := h first mem_cons_self
    cases first with
    | nop | metadata | lso => cases hdata
    | data addr lenType =>
      refine ⟨_, [], rfl, eop_bytes (by decide) addr lenType, eop_bytes (by decide) addr lenType, rfl, rfl, ?_, ?_⟩
      · have hset : (lenType ||| Nfdk.eop) &&& Nfdk.eop ≠ 0 := by
          rw [and_or_distrib_right, BitVec.and_self]
          intro hz
          have hbit := congrArg (fun v : BitVec 16 => v.getLsbD 14) hz
          simp only [getLsbD_or] at hbit
          rw [show Nfdk.eop.getLsbD 14 = true from rfl, Bool.or_true] at hbit
          cases hbit
        exact congrArg (fun b : Bool => [b]) (decide_eq_true hset)
      · intro d hd
        obtain rfl := mem_singleton.mp hd
        rfl
  | cons e es ih =>
    obtain ⟨e', es', heq, hends⟩ := ih fun d hd => h d (mem_cons_of_mem _ hd)
    obtain ⟨hdata, hplain⟩ := h first mem_cons_self
    refine ⟨first, e' :: es', by rw [setEop_cons_cons, heq], rfl, rfl, ?_, congrArg (· + 1) hends.length, ?_, ?_⟩
    · rw [flatMap_cons, flatMap_cons, hends.firstBytes, hends.restBytes]
    · rw [map_cons, hends.eop, hplain]
      rfl
    · intro d hd
      rcases mem_cons.mp hd with rfl | hd
      · exact hdata
      · exact hends.data d hd

theorem setEop_length (ds : List Desc) : (setEop ds).length = ds.length := by
  induction ds with
  | nil => rfl
  | cons d ds ih =>
    cases ds with
    | nil => cases d <;> rfl
    | cons e es =>
      rw [setEop_cons_cons]
      exact congrArg (· + 1) ih

theorem head_field (hpos : 1 ≤ headlen) (hsmall : headlen < 2 ^ 31) : u32 (headlen + 2 ^ 32 - 1) = headlen - 1 := by
  rw [u32, show headlen + 2 ^ 32 - 1 = headlen - 1 + 2 ^ 32 by omega, Nat.add_mod_right, Nat.mod_eq_of_lt (by omega)]

theorem headDescs_length (type : DescType) (addr : Nat) (hpos : 1 ≤ headlen) (hsmall : headlen < 2 ^ 31) :
    (headDescs type addr headlen).length = nfpNfdkHeadlenToSegs headlen := by
  rw [headDescs, head_field hpos hsmall, length_cons, dataDescs_length _ _ le_rfl, headlenToSegs_eq hsmall]
  omega

theorem headDescs_spec (type : DescType) (hpos : 1 ≤ headlen) (hsmall : headlen < 2 ^ 31)
    (haddr : addr + headlen ≤ 2 ^ 48) :
    ∃ lenType rest, headDescs type addr headlen = .data addr lenType :: rest ∧
      (lenType &&& dmaLenHead).toNat + 1 = min headlen 4096 ∧ lenType &&& eop = 0 ∧
      Segments rest (addr + min headlen 4096) (headlen - min headlen 4096) := by
  obtain ⟨dlen, hdlen⟩ := @exists_eq' _ (min (headlen - 1) 0xfff)
  have hmin : min headlen 4096 = dlen + 1 := by omega
  have hmask := field_masked (n := 12) (by decide) (show dlen < 2 ^ 12 by omega)
  obtain ⟨htype, htypeEop⟩ := type_disjoint type
  have hseg := dataDescs_segments (headlen - 1 - dlen) le_rfl
    (show addr + dlen + 1 + (headlen - 1 - dlen) ≤ 2 ^ 48 by omega)
  refine ⟨BitVec.ofNat 16 dlen ||| type.code <<< 12,
    dataDescs (headlen - 1 - dlen) (addr + dlen + 1) (headlen - 1 - dlen),
    ?_, ?_, ?_, ?_⟩
  · simp only [headDescs, head_field hpos hsmall, hdlen, setDmaAddr48b]
    rw [Nat.mod_eq_of_lt (by omega)]
  · rw [or_disjoint htype, hmin]
    exact congrArg (· + 1) ((congrArg BitVec.toNat hmask).trans (field_toNat (by omega)))
  · rw [or_disjoint htypeEop]
    exact masked_disjoint hmask (by decide)
  · rw [hmin, show headlen - (dlen + 1) = headlen - 1 - dlen by omega]
    exact hseg

def dataPart (skb : Skb) (head : Nat) (addrs : List Nat) : List Desc :=
  headDescs skb.type head skb.headlen ++ fragDescs skb.frags addrs

def packetDescs (skb : Skb) (head : Nat) (addrs : List Nat) (metadata lso : BitVec 64) : List Desc :=
  setEop (dataPart skb head addrs) ++
    if skb.gso.isSome then [.metadata metadata, .lso lso] else [.metadata metadata]

theorem dataPart_length_le (skb : Skb) (head : Nat) (addrs : List Nat) :
    (dataPart skb head addrs).length ≤ skb.segs ∧
      (addrs.length = skb.frags.length → (dataPart skb head addrs).length = skb.segs) := by
  have hsmall := skb.small
  obtain ⟨hle, heq⟩ := fragDescs_length_le skb.frags addrs (by omega)
  rw [dataPart, length_append, headDescs_length _ _ skb.head_pos (by omega), segs_eq]
  exact ⟨Nat.add_le_add_left hle _, fun h => congrArg (_ + ·) (heq h)⟩

theorem packetDescs_length (hlen : addrs.length = skb.frags.length) (head : Nat) (metadata lso : BitVec 64) :
    (packetDescs skb head addrs metadata lso).length = 1 + skb.segs + skb.gsoDescs := by
  have hdata := (dataPart_length_le skb head addrs).2 hlen
  rw [packetDescs, length_append, setEop_length, hdata, Skb.gsoDescs]
  cases skb.gso.isSome with
  | false =>
    simp only [Bool.false_eq_true, if_false, length_cons, length_nil]
    omega
  | true =>
    simp only [if_true, length_cons, length_nil]
    omega

theorem bytes_length_le (d : Desc) : (d.bytes dmaLen).length ≤ 16384 := by
  cases d with
  | data addr l =>
    have hle : (l &&& dmaLen).toNat ≤ dmaLen.toNat := by
      exact Nat.and_le_right
    have hmask : dmaLen.toNat = 16383 := by decide
    rw [Desc.bytes, List.length_range']
    omega
  | nop | metadata | lso => exact Nat.zero_le _

theorem packetDescs_exact {head : Nat} (hlen : addrs.length = skb.frags.length) (hhead : head + skb.headlen ≤ 2 ^ 48)
    (haddr : ∀ f ∈ skb.frags.zip addrs, f.2 + f.1 ≤ 2 ^ 48) (metadata lso : BitVec 64) :
    Exact skb head addrs (packetDescs skb head addrs metadata lso) := by
  have hsmall := skb.small
  obtain ⟨lenType, rest, hdescs, hfirst, heop, hrest⟩ := headDescs_spec skb.type skb.head_pos (by omega) hhead
  obtain ⟨hbytes, hplain⟩ := fragDescs_segments hlen haddr
  have hall : ∀ d ∈ Desc.data head lenType :: (rest ++ fragDescs skb.frags addrs), d.isData = true ∧
      d.hasEop = false := by
    intro d hd
    rcases mem_cons.mp hd with rfl | hd
    · exact ⟨rfl, by rw [Desc.hasEop, heop]; rfl⟩
    · rcases mem_append.mp hd with hd | hd
      · exact hrest.plain d hd
      · exact hplain d hd
  obtain ⟨first', rest', heq, hends⟩ := setEop_ended hall
  refine ⟨⟨first', rest', _, by rw [packetDescs, dataPart, hdescs, List.cons_append, heq], ?_, ?_,
    fun d _ => bytes_length_le d, ?_, hends.data, ?_⟩, packetDescs_length hlen head metadata lso⟩
  · have hsplit : skb.headlen = min skb.headlen 4096 + (skb.headlen - min skb.headlen 4096) := by omega
    rw [covered, hends.headBytes, hends.restBytes, flatMap_append, hrest.bytes, hbytes, Desc.bytes, hfirst,
      ← List.append_assoc, List.range'_append_1, ← hsplit]
  · rw [hends.headBytes, Desc.bytes, List.length_range', hfirst]
  · rw [hends.length]
    exact hends.eop
  · cases hgso : skb.gso with
    | none => exact ⟨metadata, rfl⟩
    | some gso => exact ⟨metadata, lso, rfl⟩

end Packet

end NfpDriver.Nfdk
