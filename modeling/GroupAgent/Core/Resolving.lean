import GroupAgent.Core.Quiet

/-!
# Resolving transitions

What `CompiledTransition::resolve_into` (`transition.rs:43-111`) appends and reports, and how it
commutes with `remap` (113-141).

* `resolveAppending` is `resolve_into` on the caller's list of targets. `resolveInto` returns what
  it appends, and an error appends nothing (`resolveAppending_eq`).
* `Selects`: the outputs of a router that a whitelist accepts. A single target must be on the list;
  a fan-out is nonempty, without repetition and on the list.
* `Lists`: a whitelist as it is compiled. Only `END` has no item, and no two identifiers have the
  same; `Listed` says it of the lists of a transition.
* `remap` renames every target by a mapping that it indexes, and fails where the mapping is too
  short, which the source leaves to a panic.

Results:
* `selects_iff`, `resolveInto_of_selects` and `resolveInto_of_not_selects`: which outputs a fan-out
  accepts, what it then appends and reports, and that every other output is an error.
* **`resolveInto_map`**: a renaming of the targets that keeps their order commutes with resolving.
-/

namespace GroupAgent.Core

open GroupAgent.Lib

variable {ρ : Type}

/-- A report as it reads below a mount. -/
def RouteDecision.prefixed (pre : GraphPath) : RouteDecision → RouteDecision
  | .single target => .single (target.prefixed pre)
  | .multiple targets => .multiple (targets.map fun target => target.prefixed pre)

namespace CompiledTransition

variable {ι κ : Type}

/-! ## The caller's list -/

section Appending

variable {m : Type → Type} [Monad m]

/-- Report and append the selected targets, one after the other. -/
def appendSelected (pathAt : ι → m NodePath) (graphPath : GraphPath) :
    List (Option ι × NodeId) → List ι → m (List NodePath × List ι)
  | [], targets => pure ([], targets)
  | (target, targetId) :: resolved, targets => do
    let path ← targetPath pathAt graphPath target targetId
    let (paths, targets) ← appendSelected pathAt graphPath resolved (targets ++ target.toList)
    pure (path :: paths, targets)

/-- `resolve_into`, with the list that it extends. -/
def resolveAppending (routers : Routers m ρ) (key : ι → Nat) (pathAt : ι → m NodePath)
    (t : CompiledTransition ρ ι) (graphPath : GraphPath) (targets : List ι) :
    m (Except TransitionError (Option RouteDecision) × List ι) :=
  match t with
  | .fixed target => pure (.ok none, targets ++ target.toList)
  | .staticFanOut compiledTargets => pure (.ok none, targets ++ compiledTargets)
  | .conditional router allowedTargets => do
    match ← routers.route router with
    | .error source => pure (.error (.router source), targets)
    | .ok targetId =>
      match allowedTargets.lookup targetId with
      | none => pure (.error (.invalidTarget targetId), targets)
      | some target => do
        let path ← targetPath pathAt graphPath target targetId
        pure (.ok (some (.single path)), targets ++ target.toList)
  | .conditionalFanOut router allowedTargets => do
    match ← routers.fanOut router with
    | .error source => pure (.error (.router source), targets)
    | .ok [] => pure (.error .emptyTargets, targets)
    | .ok (targetId :: selected) =>
      match selectAll allowedTargets [] (targetId :: selected) with
      | .error error => pure (.error error, targets)
      | .ok resolved => do
        let (paths, targets) ← appendSelected pathAt graphPath (endLast key resolved) targets
        pure (.ok (some (.multiple paths)), targets)

/-- A resolution, on the caller's list: what was resolved is appended, an error appends nothing. -/
def appendTo (targets : List ι) : Except TransitionError (List ι × Option RouteDecision) →
    Except TransitionError (Option RouteDecision) × List ι
  | .ok (appended, decision) => (.ok decision, targets ++ appended)
  | .error error => (.error error, targets)

theorem appendTo_error {targets : List ι}
    {r : Except TransitionError (List ι × Option RouteDecision)} {error : TransitionError}
    (h : (appendTo targets r).1 = .error error) : (appendTo targets r).2 = targets := by
  cases r with
  | error e => rfl
  | ok r => cases h

variable [LawfulMonad m]

theorem appendSelected_eq (pathAt : ι → m NodePath) (graphPath : GraphPath)
    (resolved : List (Option ι × NodeId)) : ∀ targets : List ι,
    appendSelected pathAt graphPath resolved targets =
      (fun paths => (paths, targets ++ resolved.filterMap Prod.fst)) <$>
        resolved.mapM fun p => targetPath pathAt graphPath p.1 p.2 := by
  induction resolved with
  | nil => simp [appendSelected]
  | cons p resolved ih =>
    intro targets
    obtain ⟨target, targetId⟩ := p
    have happend : targets ++ target.toList ++ resolved.filterMap Prod.fst =
        targets ++ ((target, targetId) :: resolved).filterMap Prod.fst := by
      cases target <;> simp
    simp only [appendSelected, ih, List.mapM_cons, map_eq_pure_bind, bind_assoc, pure_bind, happend]

/-- The list version appends what the other one returns. -/
theorem resolveAppending_eq (routers : Routers m ρ) (key : ι → Nat) (pathAt : ι → m NodePath)
    (t : CompiledTransition ρ ι) (graphPath : GraphPath) (targets : List ι) :
    t.resolveAppending routers key pathAt graphPath targets =
      appendTo targets <$> t.resolveInto routers key pathAt graphPath := by
  cases t with
  | fixed target => simp [resolveAppending, resolveInto, appendTo]
  | staticFanOut compiledTargets => simp [resolveAppending, resolveInto, appendTo]
  | conditional router allowed =>
    simp only [resolveAppending, resolveInto, map_bind]
    refine bind_congr fun answer => ?_
    cases answer with
    | error source => simp [appendTo]
    | ok targetId =>
      cases hl : allowed.lookup targetId with
      | none => simp [hl, appendTo]
      | some target => simp [hl, appendTo]
  | conditionalFanOut router allowed =>
    simp only [resolveAppending, resolveInto, map_bind]
    refine bind_congr fun answer => ?_
    cases answer with
    | error source => simp [appendTo]
    | ok selected =>
      cases selected with
      | nil => simp [appendTo]
      | cons targetId selected =>
        cases hs : selectAll allowed [] (targetId :: selected) with
        | error e => simp [hs, appendTo]
        | ok resolved => simp [hs, appendTo, appendSelected_eq]

end Appending

/-! ## What a whitelist accepts -/

/-- The outputs of a router that a whitelist accepts. -/
structure Selects (allowed : List (NodeId × Option ι)) (selected : List NodeId) : Prop where
  nonempty : selected ≠ []
  nodup : selected.Nodup
  listed : ∀ targetId ∈ selected, targetId ∈ allowed.map Prod.fst

/-- The compiled items of the outputs that have one. -/
def itemsOf (allowed : List (NodeId × Option ι)) (selected : List NodeId) : List ι :=
  selected.filterMap fun targetId => (allowed.lookup targetId).join

/-- The outputs that lead to no item. -/
def endsOf (allowed : List (NodeId × Option ι)) (selected : List NodeId) : List NodeId :=
  selected.filter fun targetId => (allowed.lookup targetId).join.isNone

theorem mem_keys_iff {allowed : List (NodeId × Option ι)} {targetId : NodeId} :
    targetId ∈ allowed.map Prod.fst ↔ ∃ target, allowed.lookup targetId = some target := by
  induction allowed with
  | nil => simp
  | cons p allowed ih =>
    obtain ⟨listed, target⟩ := p
    rw [List.map_cons, List.mem_cons, ih, List.lookup_cons]
    by_cases h : targetId = listed
    · simp [h]
    · have hne : (targetId == listed) = false := by simpa using h
      simp [h, hne]

theorem selectAll_eq_ok {allowed : List (NodeId × Option ι)} {selected : List NodeId} :
    ∀ {seen : List NodeId} {resolved : List (Option ι × NodeId)},
    selectAll allowed seen selected = .ok resolved ↔
      (selected.Nodup ∧ ∀ targetId ∈ selected, targetId ∉ seen ∧
        targetId ∈ allowed.map Prod.fst) ∧
      resolved = selected.map fun targetId => ((allowed.lookup targetId).join, targetId) := by
  induction selected with
  | nil => simp [selectAll, eq_comm]
  | cons targetId selected ih =>
    intro seen resolved
    rw [List.nodup_cons, List.forall_mem_cons, List.map_cons]
    unfold selectAll
    by_cases hseen : targetId ∈ seen
    · simp [hseen]
    · rw [if_neg hseen]
      cases hl : allowed.lookup targetId with
      | none =>
        have hnot : targetId ∉ allowed.map Prod.fst := by
          rw [mem_keys_iff]
          simp [hl]
        simp [hnot]
      | some target =>
        have hlisted : targetId ∈ allowed.map Prod.fst := mem_keys_iff.mpr ⟨target, hl⟩
        simp only [bind_eq_ok, ih]
        constructor
        · rintro ⟨rest, ⟨⟨hnodup, hall⟩, rfl⟩, hr⟩
          cases hr
          refine ⟨⟨⟨fun hmem => ?_, hnodup⟩, ⟨hseen, hlisted⟩, fun id hid => ?_⟩, rfl⟩
          · exact (hall targetId hmem).1 List.mem_cons_self
          · exact ⟨fun h => (hall id hid).1 (List.mem_cons_of_mem _ h), (hall id hid).2⟩
        · rintro ⟨⟨⟨hnew, hnodup⟩, -, hall⟩, rfl⟩
          refine ⟨_, ⟨⟨hnodup, fun id hid => ⟨fun h => ?_, (hall id hid).2⟩⟩, rfl⟩, rfl⟩
          rcases List.mem_cons.mp h with rfl | h
          · exact hnew hid
          · exact (hall id hid).1 h

theorem selects_iff {allowed : List (NodeId × Option ι)} {selected : List NodeId} :
    Selects allowed selected ↔
      selected ≠ [] ∧ ∃ resolved, selectAll allowed [] selected = .ok resolved := by
  simp only [selectAll_eq_ok]
  constructor
  · rintro ⟨hne, hnodup, hlisted⟩
    exact ⟨hne, _, ⟨hnodup, fun id hid => ⟨List.not_mem_nil, hlisted id hid⟩⟩, rfl⟩
  · rintro ⟨hne, _, ⟨hnodup, hall⟩, -⟩
    exact ⟨hne, hnodup, fun id hid => (hall id hid).2⟩

/-! ## The order of the targets -/

section Order

variable {key : ι → Nat} {resolved : List (Option ι × NodeId)}

theorem filterMap_isSome (l : List (Option ι × NodeId)) :
    (l.filter fun p => p.1.isSome).filterMap Prod.fst = l.filterMap Prod.fst := by
  induction l with
  | nil => rfl
  | cons p l ih =>
    obtain ⟨target, targetId⟩ := p
    cases target <;> simp [ih]

theorem filterMap_isNone (l : List (Option ι × NodeId)) :
    (l.filter fun p => p.1.isNone).filterMap Prod.fst = [] := by
  rw [List.filterMap_eq_nil_iff]
  intro p hp
  simpa using (List.mem_filter.mp hp).2

theorem filterMap_endLast : (endLast key resolved).filterMap Prod.fst =
    (sortByKey (fun target => target.1.elim 0 key)
      (resolved.filter fun target => target.1.isSome)).filterMap Prod.fst := by
  rw [endLast, List.filterMap_append, filterMap_isNone, List.append_nil]

/-- No target is lost, and none is added. -/
theorem endLast_perm :
    ((endLast key resolved).filterMap Prod.fst).Perm (resolved.filterMap Prod.fst) := by
  rw [filterMap_endLast, ← filterMap_isSome resolved]
  exact (sortByKey_perm _ _).filterMap _

theorem endLast_sorted :
    ((endLast key resolved).filterMap Prod.fst).Pairwise fun a b => key a ≤ key b := by
  rw [filterMap_endLast, List.pairwise_filterMap]
  refine (sortByKey_sorted _ _).imp fun {p q} hle a ha b hb => ?_
  rw [ha, hb] at hle
  exact hle

/-- What is reported: the targets in this order, then what has none. -/
theorem map_endLast {α : Type} (f : ι → α) (g : NodeId → α) :
    (endLast key resolved).map (fun p => p.1.elim (g p.2) f) =
      ((endLast key resolved).filterMap Prod.fst).map f ++
        (resolved.filter fun p => p.1.isNone).map fun p => g p.2 := by
  have hsome : ∀ l : List (Option ι × NodeId), (∀ p ∈ l, p.1.isSome = true) →
      l.map (fun p => p.1.elim (g p.2) f) = (l.filterMap Prod.fst).map f := by
    intro l hl
    induction l with
    | nil => rfl
    | cons p l ih =>
      obtain ⟨target, targetId⟩ := p
      obtain ⟨hp, hrest⟩ := List.forall_mem_cons.mp hl
      cases target with
      | none => cases hp
      | some i => simp [ih hrest]
  have hnone : ∀ p ∈ resolved.filter fun p => p.1.isNone, p.1.elim (g p.2) f = g p.2 := by
    intro p hp
    have hp : p.1 = none := by simpa using (List.mem_filter.mp hp).2
    rw [hp]
    rfl
  rw [filterMap_endLast, endLast, List.map_append, List.map_congr_left hnone, hsome]
  intro p hp
  rw [mem_sortByKey] at hp
  exact (List.mem_filter.mp hp).2

end Order

/-! ## One router output -/

section Outcome

variable {m : Type → Type} [Monad m] [LawfulMonad m] {routers : Routers m ρ} {key : ι → Nat}
  {pathAt : ι → NodePath} {graphPath : GraphPath} {router : ρ} {allowed : List (NodeId × Option ι)}
  {selected : List NodeId}

/-- An accepted output: its items in order, and the report with the rest of it last. -/
theorem resolveInto_of_selects (key : ι → Nat) (pathAt : ι → NodePath) (graphPath : GraphPath)
    (hr : routers.fanOut router = pure (.ok selected)) (h : Selects allowed selected) : ∃ items : List ι,
    items.Perm (itemsOf allowed selected) ∧ (items.Pairwise fun a b => key a ≤ key b) ∧
      (conditionalFanOut router allowed).resolveInto routers key (fun i => pure (pathAt i))
        graphPath = pure (.ok (items, some (.multiple (items.map pathAt ++
          (endsOf allowed selected).map fun targetId => ⟨graphPath, targetId⟩)))) := by
  obtain ⟨hne, resolved, hresolved⟩ := selects_iff.mp h
  obtain ⟨targetId, rest, rfl⟩ := List.exists_cons_of_ne_nil hne
  refine ⟨(endLast key resolved).filterMap Prod.fst, ?_, endLast_sorted, ?_⟩
  · refine endLast_perm.trans (List.Perm.of_eq ?_)
    rw [(selectAll_eq_ok.mp hresolved).2, itemsOf, List.filterMap_map]
    rfl
  · have hpath : (fun p : Option ι × NodeId =>
        targetPath (fun i => pure (pathAt i)) graphPath p.1 p.2) =
        fun p => (pure (p.1.elim ⟨graphPath, p.2⟩ pathAt) : m NodePath) := by
      funext ⟨target, targetId⟩
      cases target <;> rfl
    have hends : (resolved.filter fun p => p.1.isNone).map
        (fun p => (⟨graphPath, p.2⟩ : NodePath)) =
        (endsOf allowed (targetId :: rest)).map fun targetId => ⟨graphPath, targetId⟩ := by
      rw [(selectAll_eq_ok.mp hresolved).2, List.filter_map, List.map_map, endsOf]
      rfl
    simp only [resolveInto, hr, pure_bind, hresolved, hpath, List.mapM_pure]
    rw [map_endLast pathAt fun targetId => (⟨graphPath, targetId⟩ : NodePath), hends]

/-- Any other output is rejected. -/
theorem resolveInto_of_not_selects (key : ι → Nat) (graphPath : GraphPath)
    (hr : routers.fanOut router = pure (.ok selected)) (h : ¬Selects allowed selected) (paths : ι → m NodePath) : ∃ error : TransitionError,
    (conditionalFanOut router allowed).resolveInto routers key paths graphPath =
      pure (.error error) := by
  rw [selects_iff] at h
  cases selected with
  | nil => exact ⟨.emptyTargets, by simp [resolveInto, hr]⟩
  | cons targetId rest =>
    cases hs : selectAll allowed [] (targetId :: rest) with
    | ok resolved => exact absurd ⟨List.cons_ne_nil _ _, resolved, hs⟩ h
    | error error => exact ⟨error, by simp [resolveInto, hr, hs]⟩

end Outcome

/-! ## Renaming the targets -/

/-- A resolution after a renaming, below a mount. -/
def imageOf (f : ι → κ) (pre : GraphPath) :
    Except TransitionError (List ι × Option RouteDecision) →
      Except TransitionError (List κ × Option RouteDecision) :=
  Except.map fun r => (r.1.map f, r.2.map (RouteDecision.prefixed pre))

section Rename

variable {f : ι → κ} {pre : GraphPath}

/-- The entries of a whitelist after a renaming. -/
def renamed (f : ι → κ) (allowed : List (NodeId × Option ι)) : List (NodeId × Option κ) :=
  allowed.map fun (nodeId, target) => (nodeId, target.map f)

theorem lookup_renamed (allowed : List (NodeId × Option ι)) (targetId : NodeId) :
    (renamed f allowed).lookup targetId = (allowed.lookup targetId).map (Option.map f) := by
  induction allowed with
  | nil => rfl
  | cons p allowed ih =>
    obtain ⟨listed, target⟩ := p
    rw [renamed, List.map_cons, List.lookup_cons, List.lookup_cons]
    cases targetId == listed with
    | true => rfl
    | false => exact ih

theorem selectAll_renamed (allowed : List (NodeId × Option ι)) (selected : List NodeId) :
    ∀ seen : List NodeId, selectAll (renamed f allowed) seen selected =
      List.map (fun p => (p.1.map f, p.2)) <$> selectAll allowed seen selected := by
  induction selected with
  | nil => intro seen; rfl
  | cons targetId selected ih =>
    intro seen
    unfold selectAll
    by_cases hseen : targetId ∈ seen
    · rw [if_pos hseen, if_pos hseen]
      rfl
    · rw [if_neg hseen, if_neg hseen, lookup_renamed, ih]
      cases allowed.lookup targetId with
      | none => rfl
      | some target =>
        cases selectAll allowed (targetId :: seen) selected with
        | error error => rfl
        | ok resolved => rfl

theorem endLast_renamed {key : ι → Nat} {key' : κ → Nat} {resolved : List (Option ι × NodeId)}
    (hkey : ∀ p ∈ resolved, ∀ q ∈ resolved, ∀ a ∈ p.1, ∀ b ∈ q.1,
      key a ≤ key b ↔ key' (f a) ≤ key' (f b)) :
    endLast key' (resolved.map fun p => (p.1.map f, p.2)) =
      (endLast key resolved).map fun p => (p.1.map f, p.2) := by
  have hsome : (resolved.map fun p => (p.1.map f, p.2)).filter (fun p => p.1.isSome) =
      (resolved.filter fun p => p.1.isSome).map fun p => (p.1.map f, p.2) := by
    rw [List.filter_map]
    congr 2
    funext p
    simp
  have hnone : (resolved.map fun p => (p.1.map f, p.2)).filter (fun p => p.1.isNone) =
      (resolved.filter fun p => p.1.isNone).map fun p => (p.1.map f, p.2) := by
    rw [List.filter_map]
    congr 2
    funext p
    simp
  unfold endLast
  rw [List.map_append, hsome, hnone, map_sortByKey]
  intro p hp q hq
  obtain ⟨hp, hpsome⟩ := List.mem_filter.mp hp
  obtain ⟨hq, hqsome⟩ := List.mem_filter.mp hq
  obtain ⟨a, ha⟩ := Option.isSome_iff_exists.mp hpsome
  obtain ⟨b, hb⟩ := Option.isSome_iff_exists.mp hqsome
  simpa [ha, hb] using hkey p hp q hq a ha b hb

variable {m : Type → Type} [Monad m] [LawfulMonad m]

theorem mapM_renamed {α β γ : Type} {g : α → β} {h : γ → γ} {F : α → m γ} {F' : β → m γ} :
    ∀ {l : List α}, (∀ a ∈ l, F' (g a) = h <$> F a) →
      (l.map g).mapM F' = List.map h <$> l.mapM F := by
  intro l
  induction l with
  | nil => simp
  | cons a l ih =>
    intro hl
    obtain ⟨ha, hl⟩ := List.forall_mem_cons.mp hl
    simp [List.mapM_cons, ha, ih hl]

/-- Resolving after a renaming that keeps the order of the targets is renaming what is resolved:
the same acceptance, the same errors, and what leads to no target still leads to none. -/
theorem resolveInto_map {routers : Routers m ρ} {key : ι → Nat} {key' : κ → Nat}
    {pathAt : ι → m NodePath} {pathAt' : κ → m NodePath} {t : CompiledTransition ρ ι}
    {graphPath : GraphPath}
    (hkey : ∀ a ∈ t.targets, ∀ b ∈ t.targets, key a ≤ key b ↔ key' (f a) ≤ key' (f b))
    (hpath : ∀ a ∈ t.targets, pathAt' (f a) = (fun p => p.prefixed pre) <$> pathAt a) :
    (t.map f).resolveInto routers key' pathAt' (graphPath.prefixed pre) =
      imageOf f pre <$> t.resolveInto routers key pathAt graphPath := by
  have htarget : ∀ target targetId, (∀ a ∈ target, a ∈ t.targets) →
      targetPath pathAt' (graphPath.prefixed pre) (target.map f) targetId =
        (fun p => p.prefixed pre) <$> targetPath pathAt graphPath target targetId := by
    intro target targetId h
    cases target with
    | none => simp [targetPath, NodePath.prefixed]
    | some a => exact hpath a (h a rfl)
  cases t with
  | fixed target => cases target <;> simp [resolveInto, map, imageOf, Except.map]
  | staticFanOut targets => simp [resolveInto, map, imageOf, Except.map]
  | conditional router allowed =>
    show (routers.route router >>= _) = _ <$> (routers.route router >>= _)
    rw [map_bind]
    refine bind_congr fun answer => ?_
    cases answer with
    | error source => simp [imageOf, Except.map]
    | ok targetId =>
      have hl := lookup_renamed (f := f) allowed targetId
      rw [renamed] at hl
      cases h : allowed.lookup targetId with
      | none => simp [hl, h, imageOf, Except.map]
      | some target =>
        have hmem : ∀ a ∈ target, a ∈ (conditional router allowed).targets := fun a ha =>
          List.mem_filterMap.mpr ⟨_, mem_of_lookup h, ha⟩
        have hlist : (target.map f).toList = target.toList.map f := by cases target <;> rfl
        simp only [hl, h, Option.map_some, htarget target targetId hmem, hlist]
        simp [imageOf, Except.map, RouteDecision.prefixed]
  | conditionalFanOut router allowed =>
    show (routers.fanOut router >>= _) = _ <$> (routers.fanOut router >>= _)
    rw [map_bind]
    refine bind_congr fun answer => ?_
    cases answer with
    | error source => simp [imageOf, Except.map]
    | ok selected =>
      cases selected with
      | nil => simp [imageOf, Except.map]
      | cons targetId selected =>
        have hs := selectAll_renamed (f := f) allowed (targetId :: selected) []
        rw [renamed] at hs
        cases h : selectAll allowed [] (targetId :: selected) with
        | error error =>
          rw [h] at hs
          change _ = Except.error error at hs
          simp only [hs, h]
          simp [imageOf, Except.map]
        | ok resolved =>
          rw [h] at hs
          change _ = Except.ok _ at hs
          have hmem : ∀ p ∈ resolved, ∀ a ∈ p.1, a ∈ (conditionalFanOut router allowed).targets :=
            fun p hp a ha => List.mem_filterMap.mpr ⟨_, mem_of_lookup (selectAll_mem h p hp), ha⟩
          have hend : endLast key' (resolved.map fun p => (p.1.map f, p.2)) =
              (endLast key resolved).map fun p => (p.1.map f, p.2) := endLast_renamed
            fun p hp q hq a ha b hb => hkey a (hmem p hp a ha) b (hmem q hq b hb)
          have hpaths : ((endLast key resolved).map fun p => (p.1.map f, p.2)).mapM
              (fun p => targetPath pathAt' (graphPath.prefixed pre) p.1 p.2) =
              List.map (fun p => p.prefixed pre) <$> (endLast key resolved).mapM
                fun p => targetPath pathAt graphPath p.1 p.2 :=
            mapM_renamed fun p hp => htarget p.1 p.2 (hmem p (mem_endLast.mp hp))
          have hitems : ((endLast key resolved).map fun p => (p.1.map f, p.2)).filterMap Prod.fst =
              ((endLast key resolved).filterMap Prod.fst).map f := by
            rw [List.filterMap_map, List.map_filterMap]
            rfl
          simp only [hs, h, hend, hpaths, hitems]
          simp [imageOf, Except.map, RouteDecision.prefixed]

end Rename

/-! ## Remapping -/

theorem map_id (t : CompiledTransition ρ ι) : t.map (fun a => a) = t := by
  cases t <;> simp [map]

theorem map_map {μ : Type} {f : ι → κ} {g : κ → μ} {t : CompiledTransition ρ ι} :
    (t.map f).map g = t.map fun a => g (f a) := by
  cases t <;> simp [map, Function.comp_def]

section Remap

variable (mapping : List Nat)

/-- `mapping[index]`. -/
def mappedTo (index : Nat) : Except Panic Nat :=
  match mapping[index]? with
  | some mapped => .ok mapped
  | none => .error .indexOutOfBounds

def remapTarget : Option Nat → Except Panic (Option Nat)
  | none => .ok none
  | some index => some <$> mappedTo mapping index

/-- Every target by what it is mapped to. -/
def remap : CompiledTransition ρ Nat → Except Panic (CompiledTransition ρ Nat)
  | .fixed index => .fixed <$> remapTarget mapping index
  | .staticFanOut indices => .staticFanOut <$> indices.mapM (mappedTo mapping)
  | .conditional router allowed => .conditional router <$>
      allowed.mapM fun entry => (entry.1, ·) <$> remapTarget mapping entry.2
  | .conditionalFanOut router allowed => .conditionalFanOut router <$>
      allowed.mapM fun entry => (entry.1, ·) <$> remapTarget mapping entry.2

variable {mapping}

theorem mappedTo_eq_ok {index mapped : Nat} :
    mappedTo mapping index = .ok mapped ↔ index < mapping.length ∧ mapped = mapping.getD index 0 := by
  unfold mappedTo
  by_cases h : index < mapping.length
  · simp [h, eq_comm]
  · simp [h]

theorem remapTarget_eq_ok {target mapped : Option Nat} : remapTarget mapping target = .ok mapped ↔
    (∀ i ∈ target, i < mapping.length) ∧ mapped = target.map (mapping.getD · 0) := by
  cases target with
  | none => simp [remapTarget, eq_comm]
  | some i =>
    rw [remapTarget, map_eq_ok_iff fun _ => mappedTo_eq_ok]
    simp

theorem remapEntries_eq_ok {allowed mapped : List (NodeId × Option Nat)} :
    (allowed.mapM fun entry => (entry.1, ·) <$> remapTarget mapping entry.2) = .ok mapped ↔
      (∀ i ∈ allowed.filterMap Prod.snd, i < mapping.length) ∧
        mapped = renamed (mapping.getD · 0) allowed := by
  rw [mapM_eq_ok_iff fun entry _ => map_eq_ok_iff fun _ => remapTarget_eq_ok]
  simp only [List.mem_filterMap, forall_exists_index, and_imp]
  constructor
  · rintro ⟨hall, rfl⟩
    exact ⟨fun i p hp hi => hall p hp i hi, rfl⟩
  · rintro ⟨hall, rfl⟩
    exact ⟨fun p hp i hi => hall i p hp hi, rfl⟩

/-- Remapping renames the targets, and needs all of them in the mapping. -/
theorem remap_eq_ok {t t' : CompiledTransition ρ Nat} : t.remap mapping = .ok t' ↔
    (∀ i ∈ t.targets, i < mapping.length) ∧ t' = t.map (mapping.getD · 0) := by
  cases t with
  | fixed target =>
    rw [remap, map_eq_ok_iff fun _ => remapTarget_eq_ok]
    simp [targets, map]
  | staticFanOut indices => exact map_eq_ok_iff fun _ => mapM_eq_ok_iff fun _ _ => mappedTo_eq_ok
  | conditional router allowed => exact map_eq_ok_iff fun _ => remapEntries_eq_ok
  | conditionalFanOut router allowed => exact map_eq_ok_iff fun _ => remapEntries_eq_ok

/-- A strictly increasing mapping keeps the order of the indices it maps. -/
theorem getD_le_getD (hmapping : mapping.Pairwise (· < ·)) {a b : Nat} (ha : a < mapping.length)
    (hb : b < mapping.length) : a ≤ b ↔ mapping.getD a 0 ≤ mapping.getD b 0 := by
  rw [List.pairwise_iff_getElem] at hmapping
  have hget : ∀ {i : Nat} (hi : i < mapping.length), mapping.getD i 0 = mapping.get ⟨i, hi⟩ := by
    intro i hi
    simp [hi]
  rw [hget ha, hget hb]
  simp only [List.get_eq_getElem]
  rcases Nat.lt_trichotomy a b with hlt | rfl | hlt
  · have := hmapping a b ha hb hlt
    omega
  · omega
  · have := hmapping b a hb ha hlt
    omega

end Remap

/-! ## Whitelists -/

/-- A whitelist as it is compiled: only `END` has no item, and no two identifiers have the same. -/
structure Lists (allowed : List (NodeId × Option ι)) : Prop where
  ends : ∀ p ∈ allowed, p.2 = none ↔ p.1 = NodeId.END
  apart : ∀ p ∈ allowed, ∀ q ∈ allowed, p.2 = q.2 → p.1 = q.1

/-- The whitelists of a transition are well formed. -/
def Listed : CompiledTransition ρ ι → Prop
  | .fixed _ => True
  | .staticFanOut _ => True
  | .conditional _ allowed => Lists allowed
  | .conditionalFanOut _ allowed => Lists allowed

theorem Lists.renamed {f : ι → κ} {allowed : List (NodeId × Option ι)} (h : Lists allowed)
    (hf : ∀ a ∈ allowed.filterMap Prod.snd, ∀ b ∈ allowed.filterMap Prod.snd, f a = f b → a = b) :
    Lists (renamed f allowed) := by
  refine ⟨fun p hp => ?_, fun p hp q hq heq => ?_⟩
  · obtain ⟨p', hp', rfl⟩ := List.mem_map.mp hp
    simpa using h.ends p' hp'
  · obtain ⟨⟨listed, target⟩, hp', rfl⟩ := List.mem_map.mp hp
    obtain ⟨⟨listed', target'⟩, hq', rfl⟩ := List.mem_map.mp hq
    refine h.apart _ hp' _ hq' ?_
    cases target with
    | none =>
      cases target' with
      | none => rfl
      | some b => cases heq
    | some a =>
      cases target' with
      | none => cases heq
      | some b =>
        have ha : a ∈ allowed.filterMap Prod.snd := List.mem_filterMap.mpr ⟨_, hp', rfl⟩
        have hb : b ∈ allowed.filterMap Prod.snd := List.mem_filterMap.mpr ⟨_, hq', rfl⟩
        exact congrArg some (hf a ha b hb (Option.some.inj heq))

theorem Listed.map {f : ι → κ} {t : CompiledTransition ρ ι} (h : Listed t)
    (hf : ∀ a ∈ t.targets, ∀ b ∈ t.targets, f a = f b → a = b) : Listed (t.map f) := by
  cases t with
  | fixed target => trivial
  | staticFanOut targets => trivial
  | conditional router allowed => exact Lists.renamed h hf
  | conditionalFanOut router allowed => exact Lists.renamed h hf

theorem listed_ordered {key : ι → Nat} {t : CompiledTransition ρ ι} :
    Listed (t.ordered key) ↔ Listed t := by
  cases t <;> exact Iff.rfl

section Lists

variable {allowed : List (NodeId × Option ι)} {selected : List NodeId}

/-- Every item is selected once. -/
theorem Lists.nodup_itemsOf (h : Lists allowed) (hselected : selected.Nodup) :
    (itemsOf allowed selected).Nodup := by
  refine hselected.filterMap fun a b i ha hb => ?_
  have hitem : ∀ {targetId}, (allowed.lookup targetId).join = some i →
      (targetId, some i) ∈ allowed := by
    intro targetId hi
    rw [Option.join_eq_some_iff] at hi
    exact mem_of_lookup hi
  exact h.apart _ (hitem ha) _ (hitem hb) rfl

/-- What leads to no item is `END`. -/
theorem Lists.endsOf_eq (h : Lists allowed) (hselects : Selects allowed selected) :
    endsOf allowed selected = if NodeId.END ∈ selected then [NodeId.END] else [] := by
  have hend : ∀ targetId ∈ selected,
      (allowed.lookup targetId).join.isNone = decide (targetId = NodeId.END) := by
    intro targetId hmem
    obtain ⟨target, htarget⟩ := mem_keys_iff.mp (hselects.listed targetId hmem)
    have := h.ends _ (mem_of_lookup htarget)
    rw [htarget, Bool.eq_iff_iff]
    simpa using this
  rw [endsOf, List.filter_congr hend, List.filter_eq]
  by_cases hmem : NodeId.END ∈ selected
  · rw [if_pos hmem, List.count_eq_one_of_mem hselects.nodup hmem]
    rfl
  · rw [if_neg hmem, List.count_eq_zero_of_not_mem hmem]
    rfl

end Lists

end CompiledTransition

end GroupAgent.Core
