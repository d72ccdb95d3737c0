import Mathlib
import Aegis.Foundation.History
import Aegis.Capability.Refinement
import Aegis.Syscall

/-!
# No authority without provenance

Every capability that resolves can be traced through the history of the run to a
successful `create_root` of its object, through a chain of successful mints.  The
chain is given explicitly, as a list of `Link`s: the time at which a slot was
filled, the slot, and the rights it was filled with.

The history invariant `Born` keeps, for each occupied slot, the time at which its
present entry was put there.  The parent of an entry was there before it and is
there still, so the birth times fit together along parents, and the chain of a
slot is assembled by induction over the forest.  A slot that is emptied and filled
again gets a new birth time, so it cannot inherit an older chain.
-/

namespace Aegis.Capability

open Foundation

variable {TASKS SLOTS NODES : ℕ}

theorem Rights.contains_self (a : Rights) : a.contains a := by
  simp [Rights.contains]

theorem Rights.contains_trans {a b c : Rights} (hab : a.contains b) (hbc : b.contains c) :
    a.contains c := by
  simp only [Rights.contains, beq_iff_eq] at *
  calc a.bits &&& c.bits = a.bits &&& (b.bits &&& c.bits) := by rw [hbc]
    _ = (a.bits &&& b.bits) &&& c.bits := (UInt8.and_assoc _ _ _).symm
    _ = c.bits := by rw [hab, hbc]

/-! ## Chains of grants -/

/-- A slot was filled with these rights at this time. -/
structure Link where
  time : ℕ
  task : TaskId
  slot : ℕ
  rights : Rights

/-- The slot has held a capability ever since it was filled for this link. -/
def Link.Held (es : List (CapEvent TASKS SLOTS NODES)) (link : Link) : Prop :=
  Since es link.time fun caps => ∃ cap, caps.capAt link.task link.slot = .ok cap

/-- The slot was filled by a successful `create_root` of the object. -/
def Link.Created (es : List (CapEvent TASKS SLOTS NODES)) (object : Object) (link : Link) :
    Prop :=
  At es link.time fun ev =>
    ev.op = .createRoot link.task link.slot object link.rights ∧ ev.result = .ok .unit

/-- The slot was filled by a successful mint from the slot of `source`, which held
the object with `GRANT` and with at least the rights it passed on. -/
def Link.MintedFrom (es : List (CapEvent TASKS SLOTS NODES)) (object : Object)
    (source link : Link) : Prop :=
  source.time < link.time ∧ source.rights.contains Rights.GRANT ∧
    source.rights.contains link.rights ∧
    At es link.time fun ev =>
      ev.op = .mint source.task source.slot link.task link.slot link.rights ∧
        ev.result = .ok .unit ∧
        ev.before.resolve source.task source.slot Rights.GRANT = .ok ⟨object, source.rights⟩

/-- The grants that put the object into a slot, oldest first: a creation, then
mints, each from the slot filled by the link before, every one of them with at
least the given rights and in place ever since. -/
structure Provenance (es : List (CapEvent TASKS SLOTS NODES)) (object : Object)
    (rights : Rights) (task : TaskId) (slot : ℕ) (links : List Link) : Prop where
  created : ∃ link, links.head? = some link ∧ link.Created es object
  minted : links.IsChain (Link.MintedFrom es object)
  last : ∃ link, links.getLast? = some link ∧ link.task = task ∧ link.slot = slot
  held : ∀ link ∈ links, link.Held es
  rights : ∀ link ∈ links, link.rights.contains rights

theorem Provenance.weaken {es : List (CapEvent TASKS SLOTS NODES)} {object : Object}
    {rights required : Rights} {task : TaskId} {slot : ℕ} {links : List Link}
    (h : Provenance es object rights task slot links) (hrights : rights.contains required) :
    Provenance es object required task slot links where
  created := h.created
  minted := h.minted
  last := h.last
  held := h.held
  rights link hlink := Rights.contains_trans (h.rights link hlink) hrights

/-- A creation is a chain by itself. -/
theorem Provenance.root {es : List (CapEvent TASKS SLOTS NODES)} {object : Object}
    {link : Link} (created : link.Created es object) (held : link.Held es) :
    Provenance es object link.rights link.task link.slot [link] where
  created := ⟨link, rfl, created⟩
  minted := List.isChain_singleton link
  last := ⟨link, rfl, rfl, rfl⟩
  held := by
    intro l hl
    rw [List.mem_singleton.mp hl]
    exact held
  rights := by
    intro l hl
    rw [List.mem_singleton.mp hl]
    exact link.rights.contains_self

/-- A mint from the last slot of a chain extends it. -/
theorem Provenance.extend {es : List (CapEvent TASKS SLOTS NODES)} {object : Object}
    {source link : Link} {task : TaskId} {slot : ℕ} {links : List Link}
    (chain : Provenance es object source.rights task slot links)
    (last : links.getLast? = some source) (mint : source.MintedFrom es object link)
    (held : link.Held es) :
    Provenance es object link.rights link.task link.slot (links ++ [link]) where
  created := by
    obtain ⟨first, hfirst, hcreated⟩ := chain.created
    exact ⟨first, by rw [List.head?_append, hfirst]; rfl, hcreated⟩
  minted := by
    refine List.isChain_append.mpr ⟨chain.minted, List.isChain_singleton link, ?_⟩
    intro x hx y hy
    rw [last, Option.mem_some_iff] at hx
    rw [List.head?_cons, Option.mem_some_iff] at hy
    exact hx ▸ hy ▸ mint
  last := ⟨link, by rw [List.getLast?_concat], rfl, rfl⟩
  held := by
    intro l hl
    rcases List.mem_append.mp hl with hl | hl
    · exact chain.held l hl
    · rw [List.mem_singleton.mp hl]
      exact held
  rights := by
    intro l hl
    rcases List.mem_append.mp hl with hl | hl
    · exact Rights.contains_trans (chain.rights l hl) mint.2.2.1
    · rw [List.mem_singleton.mp hl]
      exact link.rights.contains_self

/-! ## Birth times -/

/-- The link a slot with a given birth time and entry makes. -/
def linkOf (born : Position TASKS SLOTS → ℕ) (p : Position TASKS SLOTS)
    (e : Forest.Entry (Position TASKS SLOTS) ResolvedCapability) : Link :=
  ⟨born p, p.1, p.2, e.value.rights⟩

/-- The entry `e` of slot `p` has been there since time `born p`, when it was
created or minted from its parent's present entry. -/
structure Born (es : List (CapEvent TASKS SLOTS NODES)) (f : LeaseForest TASKS SLOTS)
    (born : Position TASKS SLOTS → ℕ) (p : Position TASKS SLOTS)
    (e : Forest.Entry (Position TASKS SLOTS) ResolvedCapability) : Prop where
  held : (linkOf born p e).Held es
  root : e.parent = none → (linkOf born p e).Created es e.value.object
  child : ∀ q, e.parent = some q → ∃ source, f.entry q = some source ∧
    source.value.object = e.value.object ∧
    (linkOf born q source).MintedFrom es e.value.object (linkOf born p e)

theorem Represents.exists_capAt {caps : CapabilitySystem TASKS SLOTS NODES}
    {f : LeaseForest TASKS SLOTS} (rep : Represents caps f) {p : Position TASKS SLOTS}
    (h : (f.entry p).isSome) : ∃ cap, caps.capAt p.1 p.2 = .ok cap := by
  rw [← rep.isSome_iff] at h
  obtain ⟨cap, hcap⟩ := Option.isSome_iff_exists.mp h
  exact ⟨cap, by rw [CapabilitySystem.capAt_eq, locate_coe]; simp only [hcap]⟩

theorem Represents.resolve_of_entry {caps : CapabilitySystem TASKS SLOTS NODES}
    {f : LeaseForest TASKS SLOTS} (rep : Represents caps f) (hN : NODES ≤ 65536)
    {task : TaskId} {slot : ℕ} {p : Position TASKS SLOTS} (hp : locate task slot = .ok p)
    {e : Forest.Entry (Position TASKS SLOTS) ResolvedCapability} (h : f.entry p = some e)
    {required : Rights} (allowed : e.value.rights.contains required) :
    caps.resolve task slot required = .ok e.value := by
  rw [rep.resolve_eq hN]
  simp [LeaseForest.entryAt, hp, h, allowed]

/-- What resolves is the entry of an occupied slot. -/
theorem Represents.entry_of_resolve {caps : CapabilitySystem TASKS SLOTS NODES}
    {f : LeaseForest TASKS SLOTS} (rep : Represents caps f) (hN : NODES ≤ 65536)
    {task : TaskId} {slot : ℕ} {required : Rights} {resolved : ResolvedCapability}
    (h : caps.resolve task slot required = .ok resolved) :
    ∃ p e, locate task slot = .ok p ∧ f.entry p = some e ∧ e.value = resolved ∧
      resolved.rights.contains required := by
  rw [rep.resolve_eq hN] at h
  cases hentry : f.entryAt task slot with
  | error e =>
      rw [hentry] at h
      cases h
  | ok found =>
      obtain ⟨hp, he⟩ := LeaseForest.entryAt_eq_ok hentry
      simp only [hentry] at h
      split at h
      · next allowed =>
          cases h
          exact ⟨found.1, found.2, hp, he, rfl, allowed⟩
      · cases h

section Step

variable {es : List (CapEvent TASKS SLOTS NODES)} {f f' : LeaseForest TASKS SLOTS}
  {born born' : Position TASKS SLOTS → ℕ} {ev : CapEvent TASKS SLOTS NODES}

theorem Born.lt_length {p : Position TASKS SLOTS}
    {e : Forest.Entry (Position TASKS SLOTS) ResolvedCapability} (h : Born es f born p e) :
    born p < es.length := by
  cases hparent : e.parent with
  | none => exact (h.root hparent).lt_length
  | some q =>
      obtain ⟨source, -, -, -, -, -, hmint⟩ := h.child q hparent
      exact hmint.lt_length

/-- An entry that a step leaves alone, together with its parent, stays born when
it was. -/
theorem Born.snoc {p : Position TASKS SLOTS}
    {e : Forest.Entry (Position TASKS SLOTS) ResolvedCapability} (h : Born es f born p e)
    (there : ∃ cap, ev.after.capAt p.1 p.2 = .ok cap) (hborn : born' p = born p)
    (parent : ∀ q, e.parent = some q → f'.entry q = f.entry q ∧ born' q = born q) :
    Born (es ++ [ev]) f' born' p e := by
  have hlink : linkOf born' p e = linkOf born p e := by rw [linkOf, hborn, linkOf]
  constructor
  · rw [hlink]
    exact h.held.snoc there
  · intro hroot
    rw [hlink]
    exact (h.root hroot).snoc
  · intro q hq
    obtain ⟨source, hsource, hobject, earlier, granted, attenuated, hmint⟩ := h.child q hq
    obtain ⟨hentry, hbornq⟩ := parent q hq
    refine ⟨source, hentry.trans hsource, hobject, ?_⟩
    rw [hlink, show linkOf born' q source = linkOf born q source by
      rw [linkOf, hbornq, linkOf]]
    exact ⟨earlier, granted, attenuated, hmint.snoc⟩

/-- Filling a free slot leaves the births of all other entries alone. -/
theorem Born.insert (births : ∀ p e, f.entry p = some e → Born es f born p e)
    (rep : Represents ev.after f') {p : Position TASKS SLOTS} (free : f.entry p = none)
    {e : Forest.Entry (Position TASKS SLOTS) ResolvedCapability}
    (hf' : f' = f.insert p e) (insertable : f.Insertable p e)
    (new : Born (es ++ [ev]) f' (Function.update born p es.length) p e) :
    ∀ q d, f'.entry q = some d →
      Born (es ++ [ev]) f' (Function.update born p es.length) q d := by
  intro q d hd
  have there := rep.exists_capAt (Option.isSome_of_eq_some hd)
  by_cases hq : q = p
  · subst hq
    rw [hf', Forest.insert_entry_self insertable, Option.some.injEq] at hd
    exact hd ▸ new
  · rw [hf', Forest.insert_entry_of_ne hq] at hd
    refine (births q d hd).snoc there (Function.update_of_ne hq _ _) fun k hk => ?_
    have hkp : k ≠ p := by
      rintro rfl
      have := f.parent_occupied q k (by simp [hd, hk])
      simp [free] at this
    exact ⟨by rw [hf', Forest.insert_entry_of_ne hkp], Function.update_of_ne hkp _ _⟩

/-- **Births survive a step**: with the right birth times, every entry of the new
forest is born. -/
theorem born_step {caps caps' : CapabilitySystem TASKS SLOTS NODES} {op : CapOp}
    {r : CapResult} (hN : NODES ≤ 65536) (rep : Represents caps f)
    (rep' : Represents caps' f') (h : f.Transition op r f')
    (births : ∀ p e, f.entry p = some e → Born es f born p e) :
    ∃ born', ∀ p e, f'.entry p = some e → Born (es ++ [⟨caps, op, r, caps'⟩]) f' born' p e := by
  have quiet : ∀ p e, f.entry p = some e → f'.entry p = some e →
      (∀ q, e.parent = some q → f'.entry q = f.entry q) →
      Born (es ++ [⟨caps, op, r, caps'⟩]) f' born p e := by
    intro p e he he' hparent
    exact (births p e he).snoc (rep'.exists_capAt (Option.isSome_of_eq_some he')) rfl
      fun q hq => ⟨hparent q hq, rfl⟩
  cases h with
  | rejected => exact ⟨born, fun p e he => quiet p e he he fun _ _ => rfl⟩
  | resolved => exact ⟨born, fun p e he => quiet p e he he fun _ _ => rfl⟩
  | @created owner slot object rights p hp free =>
      obtain ⟨rfl, rfl⟩ := locate_eq_ok hp
      have insertable := Forest.Insertable.root free ⟨object, rights⟩
      have there := rep'.exists_capAt (p := p) (by rw [Forest.insert_entry_self insertable]; rfl)
      refine ⟨_, Born.insert births rep' free rfl insertable ⟨?_, fun _ => ?_, nofun⟩⟩
      · simpa [linkOf, Link.Held] using since_length there
      · simpa [linkOf, Link.Created] using at_length ⟨rfl, rfl⟩
  | @minted sourceTask sourceSlot destinationTask destinationSlot rights p q source hp free hq
      hsource granted attenuated =>
      obtain ⟨rfl, rfl⟩ := locate_eq_ok hp
      obtain ⟨rfl, rfl⟩ := locate_eq_ok hq
      have insertable := Forest.Insertable.child free hsource ⟨source.value.object, rights⟩
      have there := rep'.exists_capAt (p := p) (by rw [Forest.insert_entry_self insertable]; rfl)
      have hqp : q ≠ p := by
        rintro rfl
        rw [free] at hsource
        cases hsource
      refine ⟨_, Born.insert births rep' free rfl insertable ⟨?_, nofun, ?_⟩⟩
      · simpa [linkOf, Link.Held] using since_length there
      · intro k hk
        cases hk
        refine ⟨source, by rw [Forest.insert_entry_of_ne hqp, hsource], rfl, ?_, granted,
          attenuated, ?_⟩
        · simpa [linkOf, hqp] using (births q source hsource).lt_length
        · simpa [linkOf] using at_length ⟨rfl, rfl, rep.resolve_of_entry hN hq hsource granted⟩
  | @pruned task slot p entry hp hentry =>
      refine ⟨born, fun q e he => ?_⟩
      have hq : ¬ f.Descends q p := by
        intro hdesc
        rw [Forest.prune_entry_of_descends hdesc] at he
        cases he
      rw [Forest.prune_entry_of_not_descends hq] at he
      refine quiet q e he (by rw [Forest.prune_entry_of_not_descends hq, he]) fun k hk => ?_
      exact Forest.prune_entry_of_not_descends fun hdesc =>
        hq (hdesc.of_parent (Forest.parent_eq_some.mpr ⟨e, he, hk⟩))

/-- **The chain of a slot**, assembled from the births of its ancestors. -/
theorem exists_provenance (births : ∀ p e, f.entry p = some e → Born es f born p e)
    {p : Position TASKS SLOTS}
    {e : Forest.Entry (Position TASKS SLOTS) ResolvedCapability} (h : f.entry p = some e) :
    ∃ links, links.getLast? = some (linkOf born p e) ∧
      Provenance es e.value.object e.value.rights p.1 p.2 links := by
  refine f.induction (P := fun p e => ∃ links, links.getLast? = some (linkOf born p e) ∧
    Provenance es e.value.object e.value.rights p.1 p.2 links) (fun p e he ih => ?_) h
  have hborn := births p e he
  cases hparent : e.parent with
  | none => exact ⟨[linkOf born p e], rfl, .root (hborn.root hparent) hborn.held⟩
  | some q =>
      obtain ⟨source, hsource, hobject, hmint⟩ := hborn.child q hparent
      obtain ⟨links, hlast, chain⟩ := ih q source hparent hsource
      rw [hobject] at chain
      exact ⟨links ++ [linkOf born p e], by simp, chain.extend hlast hmint hborn.held⟩

end Step

/-- Along every run the entries of the forest are born. -/
theorem exists_born (hN : NODES ≤ 65536) (ops : List CapOp) :
    ∃ es caps, (capMachine TASKS SLOTS NODES).exec CapabilitySystem.new ops =
        some (es, caps) ∧
      ∃ f born, Represents caps f ∧ ∀ p e, f.entry p = some e → Born es f born p e := by
  refine Machine.exec_of_invariant
    (fun es caps => ∃ f born, Represents caps f ∧
      ∀ p e, f.entry p = some e → Born es f born p e)
    ⟨Forest.empty, fun _ => 0, represents_new, nofun⟩ ?_ ops
  rintro es caps op ⟨f, born, rep, births⟩
  obtain ⟨r, caps', f', hstep, htrans, rep', -⟩ := capStep_transition rep hN op
  obtain ⟨born', births'⟩ := born_step hN rep rep' htrans births
  exact ⟨r, caps', hstep, f', born', rep', births'⟩

/-- **No authority without provenance.**  After every run, whatever resolves, and
whatever a system call is authorized to use, is traced by the history to a
successful creation of that object, through successful mints from slots that held
`GRANT`, none of which has been emptied since and all of which carried the required
rights. -/
theorem no_authority_without_provenance (TASKS SLOTS NODES : ℕ) (hN : NODES ≤ 65536)
    (ops : List CapOp) :
    ∃ es caps, (capMachine TASKS SLOTS NODES).exec CapabilitySystem.new ops =
        some (es, caps) ∧
      ∀ task slot required,
        (∀ resolved, caps.resolve task slot required = .ok resolved →
          ∃ links, Provenance es resolved.object required task slot links) ∧
        (∀ endpoint, authorizeEndpoint caps task slot required = .ok endpoint →
          ∃ links, Provenance es (.endpoint endpoint) required task slot links) ∧
        (∀ frame, authorizeFrame caps task slot required = .ok frame →
          ∃ links, Provenance es (.frame frame) required task slot links) ∧
        ∀ base pages, authorizeMmio caps task slot required = .ok (base, pages) →
          ∃ links, Provenance es (.mmio base pages) required task slot links := by
  obtain ⟨es, caps, hexec, f, born, rep, births⟩ := @exists_born TASKS SLOTS NODES hN ops
  refine ⟨es, caps, hexec, fun task slot required => ?_⟩
  have traced : ∀ resolved, caps.resolve task slot required = .ok resolved →
      ∃ links, Provenance es resolved.object required task slot links := by
    intro resolved h
    obtain ⟨p, e, hp, he, rfl, allowed⟩ := rep.entry_of_resolve hN h
    obtain ⟨rfl, rfl⟩ := locate_eq_ok hp
    obtain ⟨links, -, chain⟩ := exists_provenance births he
    exact ⟨links, chain.weaken allowed⟩
  refine ⟨traced, ?_, ?_, ?_⟩
  · intro endpoint h
    obtain ⟨resolved, hres, hobject⟩ := authorizeEndpoint_eq_ok h
    exact hobject ▸ traced resolved hres
  · intro frame h
    obtain ⟨resolved, hres, hobject⟩ := authorizeFrame_eq_ok h
    exact hobject ▸ traced resolved hres
  · intro base pages h
    obtain ⟨resolved, hres, hobject⟩ := authorizeMmio_eq_ok h
    exact hobject ▸ traced resolved hres

/-- An endpoint reached through two mints, in a slot that held something else
before. -/
theorem no_authority_without_provenance_live :
    (16 : ℕ) ≤ 65536 ∧
    ∃ es caps, (capMachine 4 8 16).exec CapabilitySystem.new
        [.createRoot 2 3 (.frame 1) Rights.ALL, .revoke 2 3,
          .createRoot 0 0 (.endpoint 7) Rights.ALL,
          .mint 0 0 1 0 (Rights.READ.union Rights.GRANT), .mint 1 0 2 3 Rights.READ] =
        some (es, caps) ∧
      authorizeEndpoint caps 2 3 Rights.READ = .ok 7 ∧
      ∃ links, Provenance es (.endpoint 7) Rights.READ 2 3 links := by
  refine ⟨by decide, ?_⟩
  obtain ⟨es, caps, hexec, traced⟩ :=
    no_authority_without_provenance 4 8 16 (by decide)
      [.createRoot 2 3 (.frame 1) Rights.ALL, .revoke 2 3,
        .createRoot 0 0 (.endpoint 7) Rights.ALL,
        .mint 0 0 1 0 (Rights.READ.union Rights.GRANT), .mint 1 0 2 3 Rights.READ]
  have authorized : ((capMachine 4 8 16).exec CapabilitySystem.new
      [.createRoot 2 3 (.frame 1) Rights.ALL, .revoke 2 3,
        .createRoot 0 0 (.endpoint 7) Rights.ALL,
        .mint 0 0 1 0 (Rights.READ.union Rights.GRANT), .mint 1 0 2 3 Rights.READ]).map
        (fun p => authorizeEndpoint p.2 2 3 Rights.READ) = some (.ok 7) := by
    decide +kernel
  rw [hexec, Option.map_some, Option.some.injEq] at authorized
  exact ⟨es, caps, hexec, authorized, (traced 2 3 Rights.READ).2.1 7 authorized⟩

end Aegis.Capability
