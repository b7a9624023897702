import NfpDriver.Maps.Cache

namespace NfpDriver.MapCache

open Runs Function Option

variable {Key Value Tbl : Type} [DecidableEq Key] [DecidableEq Value] {n : Nat}
variable {app : App} {fw : Firmware Tbl Key Value}

def Answered (fw : Firmware Tbl Key Value) (table : Tbl) : Request Key Value → Out Key Value → Prop
  | .lookup key, out => ∃ value, out = ⟨none, some value⟩ ∧ fw.lookup table key = some value
  | .getnext key, out => ∃ next, out = ⟨some next, none⟩ ∧ fw.next table (some key) = some next
  | _, _ => False

structure Coherent (app : App) (fw : Firmware Tbl Key Value) (st : St Key Value Tbl n) : Prop where
  hit : ∀ req now map out, nfpBpfCtrlOpCacheGet app st.map req now = (map, 0, out) → Answered fw st.table req out
  blockers : st.map.cacheBlockers.toNat = st.inFlight

def NoWrap (st : St Key Value Tbl n) : Action Key Value Tbl n → Prop
  | .finish t _ | .fail t _ _ _ => ∀ f, st.tasks t = .flight f → st.completed < f.since + 2 ^ 32
  | _ => True

-- an update or delete whose caller gave up reaches the table before the firmware has answered a fill
def BeforeFills (st : St Key Value Tbl n) : Action Key Value Tbl n → Prop
  | .serveAbandoned i _ => ∀ req, st.abandoned[i]? = some req → nfpBpfCtrlOpCacheInvalidate req.op = true →
    st.map.cache = none ∧ ∀ t f, st.tasks t = .flight f → nfpBpfCtrlOpCacheFill f.req.op = true → f.skb = none
  | _ => True

section Search

variable {table : Tbl} {start : Option Key} {key : Key} {entries : List (Entry Key Value)} {out : Out Key Value}

theorem chain_cons {e : Entry Key Value} {rest : List (Entry Key Value)} :
    fw.chain table start (e :: rest) = true ↔ fw.next table start = some e.key ∧
      fw.lookup table e.key = some e.value ∧ fw.chain table (some e.key) rest = true := by
  simp [Firmware.chain, and_assoc]

theorem search_lookup (hc : fw.chain table start entries = true) (h : cacheSearch .lookup key entries = some out) :
    ∃ value, out = ⟨none, some value⟩ ∧ fw.lookup table key = some value := by
  induction entries generalizing start with
  | nil => cases h
  | cons e rest ih =>
    obtain ⟨-, hlookup, hrest⟩ := chain_cons.mp hc
    rw [cacheSearch] at h
    split at h
    · exact ih hrest h
    · next hkey =>
      obtain rfl := Decidable.not_not.mp hkey
      exact ⟨e.value, (some.inj h).symm, hlookup⟩

theorem search_getnext (hc : fw.chain table start entries = true) (h : cacheSearch .getnext key entries = some out) :
    ∃ next, out = ⟨some next, none⟩ ∧ fw.next table (some key) = some next := by
  induction entries generalizing start with
  | nil => cases h
  | cons e rest ih =>
    obtain ⟨-, -, hrest⟩ := chain_cons.mp hc
    rw [cacheSearch] at h
    split at h
    · exact ih hrest h
    next hkey =>
    obtain rfl := Decidable.not_not.mp hkey
    cases rest with
    | nil => cases h
    | cons e' rest => exact ⟨e'.key, (some.inj h).symm, (chain_cons.mp hrest).1⟩

end Search

inductive Got (map : NfpBpfMap Key Value) (req : Request Key Value) :
    NfpBpfMap Key Value × Nat × Out Key Value → Prop where
  | block {k : Nat} {out : Out Key Value} (blocks : nfpBpfCtrlOpCacheInvalidate req.op = true) (pos : 0 < k) :
    Got map req ({ map with cacheBlockers := map.cacheBlockers + 1, cache := none }, k, out)
  | pass {k : Nat} {out : Out Key Value} {cache : Option (Reply Key Value)}
    (reads : nfpBpfCtrlOpCacheInvalidate req.op = false) (pos : 0 < k) (kept : cache = none ∨ cache = map.cache) :
    Got map req ({ map with cache := cache }, k, out)
  | hit {out : Out Key Value} {reply : Reply Key Value} {key : Key} (capable : nfpBpfCtrlOpCacheCapable req.op = true)
    (cached : map.cache = some reply) (hkey : req.key = some key)
    (found : cacheSearch req.op key reply.entries = some out) : Got map req (map, 0, out)

omit [DecidableEq Value] in
theorem cacheGet_got (app : App) (map : NfpBpfMap Key Value) (req : Request Key Value) (now : BitVec 64) :
    Got map req (nfpBpfCtrlOpCacheGet app map req now) := by
  have hpos : 0 < if map.cacheBlockers ≠ 0 then 1
      else if nfpBpfCtrlOpCacheFill req.op then app.cmsgCacheCnt else 1 := by
    have := app.pos
    split
    · exact one_pos
    · split
      · exact this
      · exact one_pos
  rw [nfpBpfCtrlOpCacheGet]
  cases hb : nfpBpfCtrlOpCacheInvalidate req.op with
  | true => exact .block hb hpos
  | false =>
    cases hc : nfpBpfCtrlOpCacheCapable req.op with
    | false => exact .pass hb hpos (.inr rfl)
    | true =>
      cases hm : map.cache with
      | none => exact .pass hb hpos (.inr rfl)
      | some reply =>
        simp only [Bool.false_eq_true, if_false, Bool.not_true]
        split
        · exact .pass hb hpos (.inl rfl)
        split
        · exact .pass hb hpos (.inr rfl)
        · next hs =>
          obtain ⟨key, hkey, hfound⟩ := bind_eq_some_iff.mp hs
          exact .hit hc hm hkey hfound

variable {map : NfpBpfMap Key Value} {now : BitVec 64} {req : Request Key Value} {table : Tbl} {task : Task Key Value}
  {f : Flight Key Value} {reply : Reply Key Value} {a : Action Key Value Tbl n} {st : St Key Value Tbl n}

theorem get_answered {map' : NfpBpfMap Key Value} {out : Out Key Value}
    (hc : ∀ reply, map.cache = some reply → ∃ start, fw.chain table start reply.entries = true)
    (h : nfpBpfCtrlOpCacheGet app map req now = (map', 0, out)) : Answered fw table req out := by
  have hg := cacheGet_got app map req now
  rw [h] at hg
  cases hg with
  | block _ pos | pass _ pos => cases pos
  | hit capable cached hkey found =>
    obtain ⟨start, hchain⟩ := hc _ cached
    cases req with
    | lookup key => exact some.inj hkey ▸ search_lookup hchain found
    | getnext key => exact some.inj hkey ▸ search_getnext hchain found
    | getfirst | update | delete => cases capable

section InFlight

variable {st : St Key Value Tbl n} {t : Fin n}

omit [DecidableEq Key] [DecidableEq Value] in
theorem inFlight_set (st : St Key Value Tbl n) (map : NfpBpfMap Key Value) (t : Fin n) (task : Task Key Value) :
    (st.set map t task).inFlight + (if (st.tasks t).blocks = true then 1 else 0) =
      st.inFlight + if task.blocks = true then 1 else 0 := by
  have hsum (st : St Key Value Tbl n) : st.inFlight = (if (st.tasks t).blocks = true then 1 else 0) +
      ∑ u ∈ Finset.univ.erase t, if (st.tasks u).blocks = true then 1 else 0 := by
    rw [St.inFlight, Finset.card_filter,
      Finset.add_sum_erase _ (fun u => if (st.tasks u).blocks = true then 1 else 0) (Finset.mem_univ t)]
  have hrest : ∑ u ∈ Finset.univ.erase t, (if ((st.set map t task).tasks u).blocks = true then 1 else 0) =
      ∑ u ∈ Finset.univ.erase t, if (st.tasks u).blocks = true then 1 else 0 :=
    Finset.sum_congr rfl fun u hu => by simp only [St.set, update_of_ne (Finset.ne_of_mem_erase hu)]
  have hself : (st.set map t task).tasks t = task := update_self _ _ _
  rw [hsum (st.set map t task), hsum st, hrest, hself]
  omega

omit [DecidableEq Key] [DecidableEq Value] in
theorem inFlight_pos (h : (st.tasks t).blocks = true) : 0 < st.inFlight :=
  Finset.card_pos.mpr ⟨t, Finset.mem_filter.mpr ⟨Finset.mem_univ t, h⟩⟩

omit [DecidableEq Key] [DecidableEq Value] in
theorem inFlight_le (st : St Key Value Tbl n) : st.inFlight ≤ n :=
  (Finset.card_le_univ _).trans (le_of_eq (Fintype.card_fin n))

end InFlight

def Linked (fw : Firmware Tbl Key Value) (table : Tbl) (reply : Reply Key Value) : Prop :=
  ∃ start, fw.chain table start reply.entries = true

structure Fresh (fw : Firmware Tbl Key Value) (st : St Key Value Tbl n) (f : Flight Key Value) : Prop where
  gen : f.cacheGen = BitVec.ofNat 32 f.since
  since : f.since ≤ st.completed
  reply : f.since = st.completed → st.inFlight = 0 → nfpBpfCtrlOpCacheFill f.req.op = true →
    ∀ reply, f.skb = some reply → Linked fw st.table reply

structure Inv (fw : Firmware Tbl Key Value) (st : St Key Value Tbl n) : Prop where
  blockers : st.map.cacheBlockers = BitVec.ofNat 32 st.inFlight
  gen : st.map.cacheGen = BitVec.ofNat 32 st.completed
  flight : ∀ t f, st.tasks t = .flight f → Fresh fw st f
  cache : ∀ reply, st.map.cache = some reply → st.inFlight = 0 ∧ Linked fw st.table reply

theorem inv_start (table : Tbl) : Inv fw (start table : St Key Value Tbl n) := by
  have hzero : (start table : St Key Value Tbl n).inFlight = 0 :=
    Finset.card_eq_zero.mpr (Finset.filter_eq_empty_iff.mpr fun t _ => Bool.false_ne_true)
  refine ⟨?_, rfl, fun t f h => ?_, fun reply h => ?_⟩
  · rw [hzero]
    rfl
  · cases h
  · cases h

theorem fill_not_invalidate {op : Op} (h : nfpBpfCtrlOpCacheInvalidate op = true) :
    nfpBpfCtrlOpCacheFill op = false := by
  cases op with
  | update | delete => rfl
  | lookup | getfirst | getnext => cases h

section Steps

variable {st st' : St Key Value Tbl n} {t : Fin n}

theorem Inv.same (hi : Inv fw st) (hblockers : map.cacheBlockers = st.map.cacheBlockers)
    (hgen : map.cacheGen = st.map.cacheGen)
    (hcache : ∀ reply, map.cache = some reply → st.inFlight = 0 ∧ Linked fw st.table reply)
    (hblocks : task.blocks = (st.tasks t).blocks) (hflight : ∀ f, task = .flight f → Fresh fw st f) :
    Inv fw (st.set map t task) := by
  have hcount : (st.set map t task).inFlight = st.inFlight := by
    have := inFlight_set st map t task
    rw [hblocks] at this
    omega
  refine ⟨by rw [hcount]; exact hblockers.trans hi.blockers, hgen.trans hi.gen, fun u f hu => ?_, fun reply h => ?_⟩
  · have hf : Fresh fw st f := by
      by_cases hut : u = t
      · simp only [St.set, hut, update_self] at hu
        exact hflight f hu
      · simp only [St.set, update_of_ne hut] at hu
        exact hi.flight u f hu
    exact ⟨hf.gen, hf.since, fun h1 h2 => hf.reply h1 (hcount ▸ h2)⟩
  · rw [hcount]
    exact hcache reply h

theorem Inv.busy (hi : Inv fw st) (h : st.inFlight ≠ 0) : st.map.cache = none := by
  cases hc : st.map.cache with
  | none => rfl
  | some reply => exact absurd (hi.cache reply hc).1 h

theorem Inv.block (hi : Inv fw st) (hidle : (st.tasks t).blocks = false)
    (hblocks : nfpBpfCtrlOpCacheInvalidate f.req.op = true) (hgen : f.cacheGen = st.map.cacheGen)
    (hsince : f.since = st.completed) :
    Inv fw (st.set { st.map with cacheBlockers := st.map.cacheBlockers + 1, cache := none } t (.flight f)) := by
  obtain ⟨map, hmap⟩ : ∃ map : NfpBpfMap Key Value,
    map = { st.map with cacheBlockers := st.map.cacheBlockers + 1, cache := none } := ⟨_, rfl⟩
  have hcount : (st.set map t (.flight f)).inFlight = st.inFlight + 1 := by
    have h := inFlight_set st map t (.flight f)
    rw [if_neg (by rw [hidle]; exact Bool.false_ne_true), if_pos (show (Task.flight f).blocks = true from hblocks)] at h
    exact h
  rw [← hmap]
  refine ⟨?_, hmap ▸ hi.gen, fun u g hu => ?_, fun reply h => ?_⟩
  · rw [hcount, BitVec.ofNat_add, ← hi.blockers]
    exact hmap ▸ rfl
  · have hg : g.cacheGen = BitVec.ofNat 32 g.since ∧ g.since ≤ st.completed := by
      by_cases hut : u = t
      · simp only [St.set, hut, update_self, Task.flight.injEq] at hu
        rw [← hu, hgen, hi.gen, hsince]
        exact ⟨rfl, le_rfl⟩
      · simp only [St.set, update_of_ne hut] at hu
        exact ⟨(hi.flight u g hu).gen, (hi.flight u g hu).since⟩
    exact ⟨hg.1, hg.2, fun _ hzero => absurd (hcount ▸ hzero) (Nat.succ_ne_zero _)⟩
  · subst hmap
    cases h

theorem Inv.write (hi : Inv fw st) (ht : st.tasks t = .flight f)
    (hblocks : nfpBpfCtrlOpCacheInvalidate f.req.op = true) (reply : Reply Key Value) (table : Tbl) :
    Inv fw { st.set st.map t (.flight { f with skb := some reply }) with table := table } := by
  obtain ⟨s, hs⟩ : ∃ s, s = st.set st.map t (.flight { f with skb := some reply }) := ⟨_, rfl⟩
  have hf := hi.flight t f ht
  have hpos : st.inFlight ≠ 0 := ne_of_gt (inFlight_pos (t := t) (by rw [ht]; exact hblocks))
  have hsi : Inv fw s := by
    rw [hs]
    refine hi.same rfl rfl hi.cache (by rw [ht]; rfl) fun g hg => ?_
    obtain rfl := Task.flight.inj hg
    exact ⟨hf.gen, hf.since, fun _ hzero => absurd hzero hpos⟩
  have hcount : s.inFlight ≠ 0 := by
    have h := inFlight_set st st.map t (.flight { f with skb := some reply })
    rw [ht, ← hs] at h
    simp only [Task.blocks, hblocks, if_true] at h
    omega
  rw [← hs]
  refine ⟨hsi.blockers, hsi.gen, fun u g hu => ?_, fun r h => ?_⟩
  · exact ⟨(hsi.flight u g hu).gen, (hsi.flight u g hu).since, fun _ hzero => absurd hzero hcount⟩
  · rw [show s.map.cache = none from hsi.busy hcount] at h
    cases h

theorem linked_of_answers (hfill : nfpBpfCtrlOpCacheFill req.op = true) (h : fw.answers table reply req = true) :
    Linked fw table reply := by
  cases req with
  | getfirst => exact ⟨none, h⟩
  | getnext key => exact ⟨some key, h⟩
  | lookup | update | delete => cases hfill

theorem Inv.read (hi : Inv fw st) (ht : st.tasks t = .flight f) (h : fw.answers st.table reply f.req = true) :
    Inv fw (st.set st.map t (.flight { f with skb := some reply })) := by
  have hf := hi.flight t f ht
  refine hi.same rfl rfl hi.cache (by rw [ht]; rfl) fun g hg => ?_
  obtain rfl := Task.flight.inj hg
  refine ⟨hf.gen, hf.since, fun _ _ hfill r hr => ?_⟩
  cases hr
  exact linked_of_answers hfill h

theorem Inv.unblock (hi : Inv fw st) (ht : st.tasks t = .flight f)
    (hblocks : nfpBpfCtrlOpCacheInvalidate f.req.op = true) (hdone : task.blocks = false)
    (hrest : ∀ g, task ≠ .flight g) (skb : Option (Reply Key Value)) (now : BitVec 64) :
    Inv fw (st.put t f skb now task) := by
  have hput : nfpBpfCtrlOpCachePut st.map f.req.op skb f.cacheGen now =
      { st.map with cacheBlockers := st.map.cacheBlockers - 1, cacheGen := st.map.cacheGen + 1 } := by
    simp [nfpBpfCtrlOpCachePut, hblocks, fill_not_invalidate hblocks]
  have hpos : st.inFlight ≠ 0 := ne_of_gt (inFlight_pos (t := t) (by rw [ht]; exact hblocks))
  rw [St.put, hput, hblocks, if_pos rfl]
  obtain ⟨map, hmap⟩ : ∃ map : NfpBpfMap Key Value,
    map = { st.map with cacheBlockers := st.map.cacheBlockers - 1, cacheGen := st.map.cacheGen + 1 } := ⟨_, rfl⟩
  rw [← hmap]
  have hcount : (st.set map t task).inFlight + 1 = st.inFlight := by
    have h := inFlight_set st map t task
    rw [ht, if_pos (show (Task.flight f).blocks = true from hblocks),
      if_neg (by rw [hdone]; exact Bool.false_ne_true)] at h
    exact h
  refine ⟨?_, ?_, fun u g hu => ?_, fun reply h => ?_⟩
  · have hb : map.cacheBlockers = st.map.cacheBlockers - 1 := by rw [hmap]
    have hset : ({ st.set map t task with completed := st.completed + 1 } : St Key Value Tbl n).inFlight =
      (st.set map t task).inFlight := rfl
    refine hb.trans ?_
    rw [hi.blockers, ← hcount, BitVec.ofNat_add]
    exact BitVec.add_sub_cancel _ _
  · have hg : map.cacheGen = st.map.cacheGen + 1 := by rw [hmap]
    refine hg.trans ?_
    rw [hi.gen]
    exact (BitVec.ofNat_add st.completed 1).symm
  · have hg : Fresh fw st g := by
      by_cases hut : u = t
      · simp only [St.set, hut, update_self] at hu
        exact absurd hu (hrest g)
      · simp only [St.set, update_of_ne hut] at hu
        exact hi.flight u g hu
    have hlt : g.since < st.completed + 1 := Nat.lt_succ_of_le hg.since
    exact ⟨hg.gen, le_of_lt hlt, fun heq => absurd heq (ne_of_lt hlt)⟩
  · have hc : map.cache = none := by rw [hmap]; exact hi.busy hpos
    cases hc.symm.trans h

theorem Inv.settle (hi : Inv fw st) (hn : n < 2 ^ 32) (ht : st.tasks t = .flight f)
    (hreads : nfpBpfCtrlOpCacheInvalidate f.req.op = false) (hwrap : st.completed < f.since + 2 ^ 32)
    (hdone : task.blocks = false) (hrest : ∀ g, task ≠ .flight g) {skb : Option (Reply Key Value)}
    (hskb : ∀ reply, skb = some reply → f.skb = some reply) (now : BitVec 64) : Inv fw (st.put t f skb now task) := by
  have hf := hi.flight t f ht
  have hsame (map : NfpBpfMap Key Value) (hblockers : map.cacheBlockers = st.map.cacheBlockers)
      (hgen : map.cacheGen = st.map.cacheGen)
      (hcache : ∀ reply, map.cache = some reply → st.inFlight = 0 ∧ Linked fw st.table reply) :
      Inv fw { st.set map t task with completed := st.completed + 0 } := by
    refine hi.same hblockers hgen hcache ?_ fun g hg => absurd hg (hrest g)
    rw [ht, hdone]
    exact hreads.symm
  rw [St.put, hreads]
  cases hfill : nfpBpfCtrlOpCacheFill f.req.op with
  | false =>
    have hput : nfpBpfCtrlOpCachePut st.map f.req.op skb f.cacheGen now = st.map := by
      simp [nfpBpfCtrlOpCachePut, hreads, hfill]
    rw [hput]
    exact hsame _ rfl rfl hi.cache
  | true =>
    simp only [nfpBpfCtrlOpCachePut, hreads, hfill, Bool.or_true, if_true, Bool.false_eq_true, if_false, Bool.true_and,
      Bool.and_eq_true, decide_eq_true_eq]
    split
    · next hinstall =>
      refine hsame _ rfl rfl fun reply hreply => ?_
      have hzero : st.inFlight = 0 := by
        have h := congrArg BitVec.toNat (hi.blockers.symm.trans hinstall.1)
        rw [BitVec.toNat_ofNat, Nat.mod_eq_of_lt (lt_of_le_of_lt (inFlight_le st) hn)] at h
        exact h
      have hsince : f.since = st.completed := by
        have h := congrArg BitVec.toNat (hi.gen.symm.trans (hinstall.2.trans hf.gen))
        rw [BitVec.toNat_ofNat, BitVec.toNat_ofNat] at h
        have hle := hf.since
        omega
      exact ⟨hzero, hf.reply hsince hzero hfill reply (hskb reply hreply)⟩
    · exact hsame _ rfl rfl hi.cache

theorem Inv.put (hi : Inv fw st) (hn : n < 2 ^ 32) (ht : st.tasks t = .flight f)
    (hwrap : st.completed < f.since + 2 ^ 32) (skb : Option (Reply Key Value))
    (hskb : ∀ reply, skb = some reply → f.skb = some reply) (now : BitVec 64) (err : Int) (out : Out Key Value) :
    Inv fw (st.put t f skb now (.done err out)) := by
  have hrest : ∀ g, Task.done err out ≠ .flight g := fun g hg => nomatch hg
  cases hb : nfpBpfCtrlOpCacheInvalidate f.req.op with
  | true => exact hi.unblock ht hb rfl hrest skb now
  | false => exact hi.settle hn ht hb hwrap rfl hrest hskb now

theorem Inv.abandon (hi : Inv fw st) (abandoned : List (Request Key Value)) :
    Inv fw { st with abandoned := abandoned } := by
  refine ⟨hi.blockers, hi.gen, fun u g hu => ?_, hi.cache⟩
  have hg := hi.flight u g hu
  exact ⟨hg.gen, hg.since, hg.reply⟩

-- with no reply held anywhere nothing speaks about the table
theorem Inv.unread (hi : Inv fw st) (hcache : st.map.cache = none)
    (hunread : ∀ t f, st.tasks t = .flight f → nfpBpfCtrlOpCacheFill f.req.op = true → f.skb = none) (table : Tbl) :
    Inv fw { st with table := table } := by
  refine ⟨hi.blockers, hi.gen, fun u g hu => ?_, fun reply h => ?_⟩
  · have hg := hi.flight u g hu
    refine ⟨hg.gen, hg.since, fun _ _ hfill reply hreply => ?_⟩
    cases (hunread u g hu hfill).symm.trans hreply
  · cases hcache.symm.trans h

theorem Inv.call (hi : Inv fw st) (hidle : (st.tasks t).blocks = false)
    (h : (if req.flags >>> 32 ≠ 0 then some (st.set st.map t (.done eopnotsupp ⟨none, none⟩))
      else
        match nfpBpfCtrlOpCacheGet app st.map req now with
        | (map, 0, out) => some (st.set map t (.done 0 out))
        | (map, nEntries, _) =>
          some (st.set map t (.flight ⟨req, st.map.cacheGen, nEntries, none, st.completed⟩))) = some st') :
    Inv fw st' := by
  have hdone (err : Int) (out : Out Key Value) : Inv fw (st.set st.map t (.done err out)) :=
    hi.same rfl rfl hi.cache hidle.symm fun g hg => nomatch hg
  split at h
  · exact some.inj h ▸ hdone _ _
  have hg := cacheGet_got app st.map req now
  obtain ⟨r, hr⟩ := @exists_eq' _ (nfpBpfCtrlOpCacheGet app st.map req now)
  rw [hr] at hg h
  cases hg with
  | @block k out blocks pos =>
    cases k with
    | zero => cases pos
    | succ k => exact some.inj h ▸ hi.block hidle blocks rfl rfl
  | @pass k out cache reads pos kept =>
    cases k with
    | zero => cases pos
    | succ k =>
      rw [← some.inj h]
      refine hi.same rfl rfl (fun reply hreply => ?_) (hidle.trans reads.symm).symm fun g hg => ?_
      · rcases kept with rfl | rfl
        · cases hreply
        · exact hi.cache reply hreply
      · obtain rfl := Task.flight.inj hg
        exact ⟨hi.gen, le_rfl, fun _ _ _ reply hreply => nomatch hreply⟩
  | hit capable cached hkey found => exact some.inj h ▸ hdone _ _

theorem inv_step (hn : n < 2 ^ 32) (hi : Inv fw st) (hw : NoWrap st a) (hb : BeforeFills st a)
    (h : step app fw st a = some st') : Inv fw st' := by
  cases a with
  | call t req now =>
    rw [step] at h
    cases ht : st.tasks t with
    | flight f =>
      rw [ht] at h
      cases h
    | idle | done =>
      rw [ht] at h
      exact hi.call (by rw [ht]; rfl) h
  | serve t reply table =>
    rw [step] at h
    cases ht : st.tasks t with
    | flight f =>
      rw [ht] at h
      obtain ⟨hserve, hs⟩ := ite_none_right_eq_some.mp h
      rw [← some.inj hs]
      cases hop : nfpBpfCtrlOpCacheInvalidate f.req.op with
      | true => exact hi.write ht hop reply table
      | false => exact hi.read ht hserve.2
    | idle | done =>
      rw [ht] at h
      cases h
  | finish t now =>
    rw [step] at h
    cases ht : st.tasks t with
    | flight f =>
      rw [ht] at h
      obtain ⟨reply, hreply, rfl⟩ := map_eq_some_iff.mp h
      split
      · exact hi.put hn ht (hw f ht) (some reply) (fun r hr => hreply.trans hr) now _ _
      · exact hi.put hn ht (hw f ht) none (fun r hr => nomatch hr) now _ _
    | idle | done =>
      rw [ht] at h
      cases h
  | fail t err sent now =>
    rw [step] at h
    cases ht : st.tasks t with
    | flight f =>
      rw [ht] at h
      have hput := hi.put hn ht (hw f ht) none (fun r hr => nomatch hr) now err ⟨none, none⟩
      exact some.inj h ▸ hput.abandon _
    | idle | done =>
      rw [ht] at h
      cases h
  | serveAbandoned i table =>
    obtain ⟨req, hreq, rfl⟩ := map_eq_some_iff.mp h
    cases hop : nfpBpfCtrlOpCacheInvalidate req.op with
    | true =>
      obtain ⟨hcache, hunread⟩ := hb req hreq hop
      exact (hi.unread hcache hunread table).abandon _
    | false => exact hi.abandon _

end Steps

theorem Inv.coherent (hn : n < 2 ^ 32) (hi : Inv fw st) : Coherent app fw st := by
  constructor
  · exact fun req now map out h => get_answered (fun reply hr => (hi.cache reply hr).2) h
  · rw [hi.blockers, BitVec.toNat_ofNat, Nat.mod_eq_of_lt (lt_of_le_of_lt (inFlight_le st) hn)]

theorem map_cache_coherent (app : App) (fw : Firmware Tbl Key Value) (hn : n < 2 ^ 32) (table : Tbl)
    (as : List (Action Key Value Tbl n))
    (hw : Guarded (step app fw) (fun st a => NoWrap st a ∧ BeforeFills st a) (start table) as) :
    Always (step app fw) (Coherent app fw) (start table) as :=
  always_of_guarded (fun _ _ _ hi hw h => inv_step hn hi hw.1 hw.2 h) (fun _ hi => hi.coherent hn) (inv_start table) hw

theorem completed_step {st' : St Key Value Tbl n} (h : step app fw st a = some st') :
    st'.completed ≤ st.completed + 1 := by
  have hput (t : Fin n) (f : Flight Key Value) (skb : Option (Reply Key Value)) (now : BitVec 64)
      (task : Task Key Value) : (st.put t f skb now task).completed ≤ st.completed + 1 := by
    simp only [St.put]
    split <;> omega
  cases a with
  | call | serve =>
    simp only [step] at h
    repeat' split at h
    all_goals cases h
    all_goals exact Nat.le_succ _
  | finish t now =>
    simp only [step] at h
    split at h
    · obtain ⟨reply, -, rfl⟩ := map_eq_some_iff.mp h
      split <;> exact hput _ _ _ _ _
    · cases h
  | fail t err sent now =>
    simp only [step] at h
    split at h
    · next f _ =>
      cases h
      exact hput t f none now (.done err ⟨none, none⟩)
    · cases h
  | serveAbandoned i table =>
    obtain ⟨req, -, rfl⟩ := map_eq_some_iff.mp h
    exact Nat.le_succ _

theorem noWrap_of_short {as : List (Action Key Value Tbl n)} (h : st.completed + as.length ≤ 2 ^ 32) :
    Guarded (step app fw) NoWrap st as := by
  induction as generalizing st with
  | nil => trivial
  | cons a as ih =>
    rw [List.length_cons] at h
    have hlt : st.completed < 2 ^ 32 := by omega
    refine ⟨?_, fun st' hs => ih ?_⟩
    · cases a with
      | call | serve | serveAbandoned => trivial
      | finish | fail => exact fun f _ => lt_of_lt_of_le hlt (Nat.le_add_left _ _)
    · have := completed_step hs
      omega

def listFirmware : Firmware (List (Nat × Nat)) Nat Nat where
  lookup table key := table.lookup key
  next table key :=
    match key with
    | none => table.head?.map (·.1)
    | some key => ((table.dropWhile fun e => e.1 ≠ key).drop 1).head?.map (·.1)

theorem fillThenLookup_coherent :
    Always (step ⟨8, 8, 4, by decide⟩ listFirmware) (Coherent ⟨8, 8, 4, by decide⟩ listFirmware)
      (start [(1, 10), (2, 20)] : St Nat Nat (List (Nat × Nat)) 2)
      [.call 0 (.update 2 21 0) 0, .fail 0 eio true 1, .serveAbandoned 0 [(1, 10), (2, 21)], .call 0 .getfirst 2,
        .serve 0 ⟨48, 0, [⟨1, 10⟩, ⟨2, 21⟩]⟩ [], .finish 0 3, .call 1 (.lookup 2) 4, .call 0 (.delete 1) 5,
        .serve 0 ⟨16, 0, []⟩ [(2, 21)], .finish 0 6, .call 0 (.delete 2) 7, .fail 0 enomem false 8] := by
  refine map_cache_coherent _ _ (by decide) _ _ ((noWrap_of_short (by decide)).and ?_)
  refine guarded_cons rfl trivial (guarded_cons rfl trivial (guarded_cons rfl ?_ ?_))
  · -- the update reaches the table while nothing is cached and only its own caller has returned
    refine fun req _ _ => ⟨rfl, fun t f ht => ?_⟩
    match t, ht with
    | 0, ht => cases ht
    | 1, ht => cases ht
  · repeat refine guarded_cons rfl trivial ?_
    trivial

def erestartsys : Int := -512

-- the caller has polled for 200 µs before it can be interrupted
theorem abandonedUpdate_incoherent :
    Guarded (step ⟨8, 8, 4, by decide⟩ listFirmware) NoWrap
      (start [(1, 10), (2, 20)] : St Nat Nat (List (Nat × Nat)) 2)
      [.call 0 (.update 2 21 0) 0, .fail 0 erestartsys true 200000, .call 1 .getfirst 200001,
        .serve 1 ⟨48, 0, [⟨1, 10⟩, ⟨2, 20⟩]⟩ [], .finish 1 200002, .serveAbandoned 0 [(1, 10), (2, 21)]] ∧
      ¬ Always (step ⟨8, 8, 4, by decide⟩ listFirmware) (Coherent ⟨8, 8, 4, by decide⟩ listFirmware)
        (start [(1, 10), (2, 20)] : St Nat Nat (List (Nat × Nat)) 2)
        [.call 0 (.update 2 21 0) 0, .fail 0 erestartsys true 200000, .call 1 .getfirst 200001,
          .serve 1 ⟨48, 0, [⟨1, 10⟩, ⟨2, 20⟩]⟩ [], .finish 1 200002, .serveAbandoned 0 [(1, 10), (2, 21)]] := by
  refine ⟨noWrap_of_short (by decide), fun h => ?_⟩
  obtain ⟨value, hout, hvalue⟩ := (h.last rfl).hit (.lookup 2) 200003 _ ⟨none, some 20⟩ rfl
  obtain rfl : 20 = value := some.inj (congrArg Out.outValue hout)
  cases some.inj hvalue

end NfpDriver.MapCache
