import NfpDriver.Flower.Key
import NfpDriver.Library.Layout

namespace NfpDriver.Flower

open Layout List

inductive Layer where
  | metaTci
  | inPort
  | extMeta
  | macMpls
  | l4
  | ipv4
  | ipv6
  | gre
  | qinq
  | udpTun
  | geneveOpt
  deriving DecidableEq, Repr

abbrev keyMaxLw : Nat := 32

structure Step where
  layer : Layer
  size : Nat
  written : Nat
  advance : Nat
  fails : Option String

structure Placed where
  layer : Layer
  off : Nat
  size : Nat
  written : Nat
  deriving DecidableEq, Repr

def whole (layer : Layer) (size : Nat) (fails : Option String) : Step := ⟨layer, size, size, size, fails⟩

def given (c : Bool) (s : Step) : List Step := if c then [s] else []

def compilePort (portId : BitVec 32) (tunType : TunType) : Option String :=
  if tunType = .none ∧ portId = 0 then some "unsupported offload: invalid ingress interface for match offload" else none

def compileMpls (rule : FlowRule) : Option String :=
  if rule.matchKey .mpls ∧ rule.mplsUsedLses ≠ 1 then
    some "unsupported offload: invalid LSE depth for MPLS match offload"
  else none

def addIpv6Off (ipv6Off tunIpv6 : Bool) : Option String := if tunIpv6 ∧ ipv6Off = false then some "" else none

def compileSteps (rule : FlowRule) (k : KeyLs) (portId : BitVec 32) (ipv6Off : Bool) (tunType : TunType) : List Step :=
  let l := k.keyLayer
  let t := k.keyLayerTwo
  [whole .metaTci sizeofMetaTci none] ++
    given l.extMeta (whole .extMeta sizeofExtMeta none) ++
    [whole .inPort sizeofInPort (compilePort portId tunType)] ++
    given l.mac (whole .macMpls sizeofMacMpls (compileMpls rule)) ++
    given l.tp (whole .l4 sizeofTpPorts none) ++
    given l.ipv4 (whole .ipv4 sizeofIpv4 none) ++
    given l.ipv6 (whole .ipv6 sizeofIpv6 none) ++
    given t.qinq (whole .qinq sizeofVlan none) ++
    given t.gre
      (whole .gre (if t.tunIpv6 then sizeofIpv6GreTun else sizeofIpv4GreTun) (addIpv6Off ipv6Off t.tunIpv6)) ++
    if l.vxlan || t.geneve then
      whole .udpTun (if t.tunIpv6 then sizeofIpv6UdpTun else sizeofIpv4UdpTun) (addIpv6Off ipv6Off t.tunIpv6) ::
        -- the cursor is not moved behind the options
        given t.geneveOp ⟨.geneveOpt, sizeofGeneveOptions, rule.encOptsMaskLen.toNat, 0, none⟩
    else []

def runSteps : List Step → Nat → List Placed × Except String Nat
  | [], ext => ([], .ok ext)
  | s :: ss, ext =>
    let p : Placed := ⟨s.layer, ext, s.size, s.written⟩
    match s.fails with
    | some e => ([p], .error e)
    | none =>
      let r := runSteps ss (ext + s.advance)
      (p :: r.1, r.2)

def compileFlowMatch (rule : FlowRule) (k : KeyLs) (portId : BitVec 32) (ipv6Off : Bool) (tunType : TunType) :
    List Placed × Except String Unit :=
  let r := runSteps (compileSteps rule k portId ipv6Off tunType) 0
  match r.2 with
  | .error e => (r.1, .error e)
  | .ok ext => (r.1, if ext / 4 > keyMaxLw then .error "unsupported offload: flow key too long" else .ok ())

def calcKeyLayersSz (k : KeyLs) : Nat × List (Layer × Nat) :=
  let l := k.keyLayer
  let t := k.keyLayerTwo
  let m := put true Layer.metaTci sizeofMetaTci (0, [])
  let m := put l.extMeta .extMeta sizeofExtMeta m
  let m := put l.port .inPort sizeofInPort m
  let m := put l.mac .macMpls sizeofMacMpls m
  let m := put l.tp .l4 sizeofTpPorts m
  let m := put l.ipv4 .ipv4 sizeofIpv4 m
  let m := put l.ipv6 .ipv6 sizeofIpv6 m
  let m := put t.qinq .qinq sizeofVlan m
  let m := put t.gre .gre (if t.tunIpv6 then sizeofIpv6GreTun else sizeofIpv4GreTun) m
  let m := put (l.vxlan || t.geneve) .udpTun (if t.tunIpv6 then sizeofIpv6UdpTun else sizeofIpv4UdpTun) m
  put t.geneveOp .geneveOpt sizeofGeneveOptions m

def laidOut (rule : FlowRule) (k : KeyLs) (portId : BitVec 32) (ipv6Off : Bool) (tunType : TunType) :
    List (Layer × Nat) :=
  (compileSteps rule k portId ipv6Off tunType).map fun s => (s.layer, s.size)

structure Exact (rule : FlowRule) (k : KeyLs) (portId : BitVec 32) (ipv6Off : Bool) (tunType : TunType) : Prop where
  size : k.keySize = total (laidOut rule k portId ipv6Off tunType)
  inside : ∀ w ∈ (compileFlowMatch rule k portId ipv6Off tunType).1, w.written ≤ w.size ∧ w.off + w.size ≤ k.keySize
  apart : (compileFlowMatch rule k portId ipv6Off tunType).1.Pairwise fun x y => x.off + x.size ≤ y.off
  again : calcKeyLayersSz k = (k.keySize, place (laidOut rule k portId ipv6Off tunType) 0)
  placed : (compileFlowMatch rule k portId ipv6Off tunType).1.map (fun w => (w.layer, w.off)) <+:
    place (laidOut rule k portId ipv6Off tunType) 0
  limit : 4 * keyMaxLw < total (laidOut rule k portId ipv6Off tunType) →
    ∃ e, (compileFlowMatch rule k portId ipv6Off tunType).2 = .error e

def layerParts (k : KeyLs) : List (Layer × Nat) :=
  opt true Layer.metaTci sizeofMetaTci ++ opt k.keyLayer.extMeta Layer.extMeta sizeofExtMeta ++
  opt k.keyLayer.port Layer.inPort sizeofInPort ++ opt k.keyLayer.mac Layer.macMpls sizeofMacMpls ++
  opt k.keyLayer.tp Layer.l4 sizeofTpPorts ++ opt k.keyLayer.ipv4 Layer.ipv4 sizeofIpv4 ++
  opt k.keyLayer.ipv6 Layer.ipv6 sizeofIpv6 ++ opt k.keyLayerTwo.qinq Layer.qinq sizeofVlan ++
  opt k.keyLayerTwo.gre Layer.gre (if k.keyLayerTwo.tunIpv6 then sizeofIpv6GreTun else sizeofIpv4GreTun) ++
  opt (k.keyLayer.vxlan || k.keyLayerTwo.geneve) Layer.udpTun
    (if k.keyLayerTwo.tunIpv6 then sizeofIpv6UdpTun else sizeofIpv4UdpTun) ++
  opt k.keyLayerTwo.geneveOp Layer.geneveOpt sizeofGeneveOptions

theorem calcKeyLayersSz_eq (k : KeyLs) : calcKeyLayersSz k = (total (layerParts k), place (layerParts k) 0) := by
  have hstart : put true Layer.metaTci sizeofMetaTci (0, []) =
      (total (opt true Layer.metaTci sizeofMetaTci), place (opt true Layer.metaTci sizeofMetaTci) 0) := rfl
  simp only [calcKeyLayersSz, hstart, put_place, layerParts]

section Placement

section

variable (ss : List Step) (off : Nat) (h : ∀ s ∈ ss.dropLast, s.advance = s.size)

include h

theorem runSteps_prefix :
    (runSteps ss off).1.map (fun w => (w.layer, w.off)) <+: place (ss.map fun s => (s.layer, s.size)) off := by
  induction ss generalizing off with
  | nil => exact nil_prefix
  | cons s ss ih =>
    rw [runSteps, map_cons, place]
    cases hf : s.fails with
    | some e => exact prefix_cons_inj _ |>.mpr nil_prefix
    | none =>
      refine (prefix_cons_inj _).mpr ?_
      cases ss with
      | nil => exact nil_prefix
      | cons s' ss =>
        rw [h s (mem_cons_self ..)]
        exact ih _ fun x hx => h x (mem_cons_of_mem _ hx)

theorem runSteps_inside :
    ∀ w ∈ (runSteps ss off).1, off ≤ w.off ∧ w.off + w.size ≤ off + total (ss.map fun s => (s.layer, s.size)) ∧
      ∃ s ∈ ss, s.size = w.size ∧ s.written = w.written := by
  induction ss generalizing off with
  | nil => exact fun w hw => absurd hw not_mem_nil
  | cons s ss ih =>
    intro w hw
    rw [runSteps] at hw
    rw [map_cons, total_cons]
    cases hf : s.fails with
    | some e =>
      rw [hf] at hw
      obtain rfl := mem_singleton.mp hw
      exact ⟨le_refl _, by simp only; omega, s, mem_cons_self .., rfl, rfl⟩
    | none =>
      rw [hf] at hw
      rcases mem_cons.mp hw with rfl | hw
      · exact ⟨le_refl _, by simp only; omega, s, mem_cons_self .., rfl, rfl⟩
      cases ss with
      | nil => cases hw
      | cons s' ss =>
        rw [h s (mem_cons_self ..)] at hw
        obtain ⟨h1, h2, x, hx, hs⟩ := ih _ (fun x hx => h x (mem_cons_of_mem _ hx)) w hw
        exact ⟨by omega, by simp only; omega, x, mem_cons_of_mem _ hx, hs⟩

theorem runSteps_apart :
    (runSteps ss off).1.Pairwise fun x y => x.off + x.size ≤ y.off := by
  induction ss generalizing off with
  | nil => exact .nil
  | cons s ss ih =>
    rw [runSteps]
    cases hf : s.fails with
    | some e => exact pairwise_singleton ..
    | none =>
      cases ss with
      | nil => exact pairwise_singleton ..
      | cons s' ss =>
        have hs := h s (mem_cons_self ..)
        have hss : ∀ x ∈ (s' :: ss).dropLast, x.advance = x.size := fun x hx => h x (mem_cons_of_mem _ hx)
        refine pairwise_cons.mpr ⟨fun w hw => ?_, ih _ hss⟩
        rw [← hs]
        exact (runSteps_inside _ _ hss w hw).1

end

variable {off : Nat} {ss : List Step}

theorem runSteps_ok (h : ∀ s ∈ ss, s.fails = none) : (runSteps ss off).2 = .ok (off + (ss.map Step.advance).sum) := by
  induction ss generalizing off with
  | nil => rfl
  | cons s ss ih =>
    rw [runSteps, h s (mem_cons_self ..), map_cons, sum_cons, ← Nat.add_assoc]
    exact ih fun x hx => h x (mem_cons_of_mem _ hx)

theorem runSteps_error (h : ∃ s ∈ ss, s.fails ≠ none) : ∃ e, (runSteps ss off).2 = .error e := by
  induction ss generalizing off with
  | nil =>
    obtain ⟨s, hs, -⟩ := h
    cases hs
  | cons s ss ih =>
    rw [runSteps]
    cases hf : s.fails with
    | some e => exact ⟨e, rfl⟩
    | none =>
      refine ih ?_
      obtain ⟨x, hx, hne⟩ := h
      rcases mem_cons.mp hx with rfl | hx
      · exact absurd hf hne
      · exact ⟨x, hx, hne⟩

end Placement

end NfpDriver.Flower
