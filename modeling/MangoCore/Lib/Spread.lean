import Mathlib.Data.List.Nodup
import Mathlib.Data.List.Perm.Subperm
import Mathlib.Data.Nat.Basic

/-!
# Events that spread along links

An event starts at a source.  A node passes it on along two kinds of links: a *side* link reaches a
node that keeps the event to itself, a *down* link reaches a node that passes it on when it is a
relay.  `Links.Below` is the set of nodes that an event gets to from a node.

A walker carries the event depth first, with a list of the relays it has been to and a limit on the
length of that list.  `Walker.visit_spec` says that it handles every node below the source once, and
no other node, when every node has one route from the source and the relays stay within the limit.

* `Links.below_iff`: what one visit does itself, and what it leaves to the relays under it.
* `Links.UniqueRoutes.not_below_of_ne`: two relays have disjoint sets below them.
* `Walker.Follows`: what has to be shown about the handlers of a walker, one step each.
-/

namespace MangoCore

open List

universe u v w

/-- The kind of a link. -/
inductive Hop where
  | side
  | down
  deriving DecidableEq

/-- Who hears an event from whom, and who passes on what comes down to it. -/
structure Links (V : Type u) where
  hears : V → Hop → V → Prop
  relays : V → Prop

namespace Links

variable {V : Type u}

/-- The relays between two nodes, each under the one before; the source is not among them. -/
inductive Chain (L : Links V) (source : V) : V → List V → V → Prop
  | nil (v : V) : Chain L source v [] v
  | cons {v x y : V} {via : List V} (hdown : L.hears v .down x) (hrelay : L.relays x)
      (hne : x ≠ source) (hrest : Chain L source x via y) : Chain L source v (x :: via) y

section

variable (L : Links V) (source v : V)

/-- The event gets from `v` to `t` through the relays `via`, the last link being of kind `hop`. -/
def Reaches (via : List V) (hop : Hop) (t : V) : Prop :=
  ∃ y, L.Chain source v via y ∧ L.hears y hop t

/-- The nodes other than the source that hear an event from `v`. -/
def Below (t : V) : Prop :=
  t ≠ source ∧ ∃ via hop, L.Reaches source v via hop t

/-- The relays that an event from the source gets to. -/
def Forwards (x : V) : Prop :=
  x ≠ source ∧ L.relays x ∧ ∃ via, L.Reaches source source via .down x

/-- No node hears an event from the source along two routes. -/
def UniqueRoutes : Prop :=
  ∀ t, t ≠ source → ∀ via via' hop hop', L.Reaches source source via hop t →
    L.Reaches source source via' hop' t → via = via' ∧ hop = hop'

end

variable {L : Links V} {source v t : V} {via via' : List V} {x y : V} {hop : Hop}

theorem Chain.append (h : L.Chain source v via x)
    (h' : L.Chain source x via' y) : L.Chain source v (via ++ via') y := by
  induction h with
  | nil v => exact h'
  | cons hdown hrelay hne _ ih => exact .cons hdown hrelay hne (ih h')

theorem Chain.reaches (h : L.Chain source v via x)
    (h' : L.Reaches source x via' hop t) : L.Reaches source v (via ++ via') hop t := by
  obtain ⟨y, hchain, hears⟩ := h'
  exact ⟨y, h.append hchain, hears⟩

theorem reaches_nil (h : L.hears v hop t) : L.Reaches source v [] hop t :=
  ⟨v, .nil v, h⟩

theorem Chain.snoc (h : L.Chain source v via x)
    (hdown : L.hears x .down y) (hrelay : L.relays y) (hne : y ≠ source) :
    L.Chain source v (via ++ [y]) y :=
  h.append (.cons hdown hrelay hne (.nil y))

/-- **What one visit does itself, and what it leaves to the relays under it.** -/
theorem below_iff : L.Below source v t ↔ t ≠ source ∧ (L.hears v .side t ∨ L.hears v .down t ∨
        ∃ x, L.hears v .down x ∧ L.relays x ∧ x ≠ source ∧ L.Below source x t) := by
  constructor
  · rintro ⟨hne, via, hop, y, hchain, hhears⟩
    refine ⟨hne, ?_⟩
    cases hchain with
    | nil =>
      cases hop with
      | side => exact .inl hhears
      | down => exact .inr (.inl hhears)
    | cons hdown hrelay hx hrest =>
      exact .inr (.inr ⟨_, hdown, hrelay, hx, hne, _, _, y, hrest, hhears⟩)
  · rintro ⟨hne, h⟩
    refine ⟨hne, ?_⟩
    rcases h with hside | hdown | ⟨x, hdown, hrelay, hx, -, via, hop, y, hchain, hhears⟩
    · exact ⟨[], .side, reaches_nil hside⟩
    · exact ⟨[], .down, reaches_nil hdown⟩
    · exact ⟨x :: via, hop, y, .cons hdown hrelay hx hchain, hhears⟩

theorem Chain.below_source (h : L.Chain source source via v)
    (ht : L.Below source v t) : L.Below source source t := by
  obtain ⟨hne, via', hop, hreaches⟩ := ht
  exact ⟨hne, _, _, h.reaches hreaches⟩

/-- The relays on the way tell where a chain ends. -/
theorem Chain.end_unique (h : L.Chain source v via x) (h' : L.Chain source v via y) : x = y := by
  induction h with
  | nil v =>
    cases h'
    rfl
  | cons _ _ _ _ ih =>
    cases h' with
    | cons _ _ _ hrest => exact ih hrest

/-- The end of a chain is its start, or a relay that hears from above. -/
theorem Chain.eq_or_reaches (h : L.Chain source v via y) :
    y = v ∨ (y ≠ source ∧ L.relays y ∧ ∃ via', L.Reaches source v via' .down y) := by
  induction h with
  | nil v => exact .inl rfl
  | cons hdown hrelay hne _ ih =>
    rcases ih with rfl | ⟨hys, hy, via', x, hchain, hears⟩
    · exact .inr ⟨hne, hrelay, [], reaches_nil hdown⟩
    · exact .inr ⟨hys, hy, _, x, .cons hdown hrelay hne hchain, hears⟩

theorem Chain.eq_or_forwards (h : L.Chain source source via v) : v = source ∨ L.Forwards source v :=
  h.eq_or_reaches

theorem Chain.eq_or_below (h : L.Chain source source via v) :
    v = source ∨ L.Below source source v :=
  h.eq_or_reaches.imp_right fun ⟨hne, _, via', hreaches⟩ => ⟨hne, via', .down, hreaches⟩

namespace UniqueRoutes

variable {v : V} {via : List V} (hU : L.UniqueRoutes source) (hv : L.Chain source source via v)
include hU hv

/-- A node hears from one side or from above, not both. -/
theorem not_side_of_down (hne : t ≠ source) (hdown : L.hears v .down t) : ¬ L.hears v .side t := by
  intro hside
  have h := (hU t hne _ _ _ _ (hv.reaches (reaches_nil hdown)) (hv.reaches (reaches_nil hside))).2
  exact absurd h (by decide)

/-- What a visit handles itself is not below a relay under it. -/
theorem not_below_of_hears (hears : L.hears v hop t) (hx : L.hears v .down x)
    (hrelay : L.relays x) (hne : x ≠ source) : ¬ L.Below source x t := by
  rintro ⟨ht, via', hop', hreaches⟩
  have h := (hU t ht _ _ _ _ (hv.reaches (reaches_nil hears))
    ((hv.snoc hx hrelay hne).reaches hreaches)).1
  simp at h

/-- **Two relays have disjoint sets below them.** -/
theorem not_below_of_ne (hx : L.hears v .down x) (hrx : L.relays x) (hxs : x ≠ source)
    (hy : L.hears v .down y) (hry : L.relays y) (hys : y ≠ source) (hne : x ≠ y)
    (ht : L.Below source x t) : ¬ L.Below source y t := by
  obtain ⟨hts, via₁, hop₁, hreach₁⟩ := ht
  rintro ⟨-, via₂, hop₂, hreach₂⟩
  have h := (hU t hts _ _ _ _ ((hv.snoc hx hrx hxs).reaches hreach₁)
    ((hv.snoc hy hry hys).reaches hreach₂)).1
  grind [append_cancel_left_eq]

end UniqueRoutes
end Links

/-! ## The walk -/

/-- A walk over a changing state: the nodes it finds at the two kinds of links, and what it does at
each.  Handling a node at a down link gives the datum with which the node is visited in turn. -/
structure Walker (σ : Type u) (V : Type v) (D : Type w) where
  relays : σ → V → Bool
  sides : σ → V → List V
  downs : σ → V → List V × σ
  onSide : σ → V → D → σ
  onDown : σ → V → D → Option D × σ

namespace Walker

variable {σ : Type u} {V : Type v} {D : Type w} [DecidableEq V]

/-- What the walk does with one node at a down link, given how it visits a node. -/
def goDown (W : Walker σ V D) (visit : σ → V → D → List V → σ × List V) (d : D)
    (acc : σ × List V) (t : V) : σ × List V :=
  if t ∈ acc.2 then acc
  else
    match W.onDown acc.1 t d with
    | (some d', s) => if W.relays s t then visit s t d' (acc.2 ++ [t]) else (s, acc.2)
    | (none, s) => (s, acc.2)

/-- Visits a node; the first number bounds the nesting, the second the length of the list of the
relays that have been visited. -/
def visit (W : Walker σ V D) (limit : ℕ) : ℕ → σ → V → D → List V → σ × List V
  | 0, s, _, _, visited => (s, visited)
  | fuel + 1, s, v, d, visited =>
    if !W.relays s v then (s, visited)
    else if visited.length > limit then (s, visited)
    else
      let s := (W.sides s v).foldl (fun s t => W.onSide s t d) s
      let (downs, s) := W.downs s v
      downs.foldl (W.goDown (W.visit limit fuel) d) (s, visited)

/-- **What has to be shown about the handlers of a walker.**  `Inv done s` says that the nodes in
`done` have been handled and no others, `Data v d s` that `d` is the datum that belongs to `v`, and
`idle` marks nodes that the walk may come across and does nothing with. -/
structure Follows (W : Walker σ V D) (L : Links V) (source : V) (Inv : List V → σ → Prop)
    (Data : V → D → σ → Prop) (idle : V → Prop) : Prop where
  relays_iff : ∀ {done s v}, Inv done s → (v = source ∨ L.Below source source v) →
    (W.relays s v = true ↔ L.relays v)
  sides_nodup : ∀ {done s v}, Inv done s → (W.sides s v).Nodup
  mem_sides : ∀ {done s v via t}, Inv done s → L.Chain source source via v → L.relays v →
    L.hears v .side t → t ∈ W.sides s v
  of_mem_sides : ∀ {done s v via t}, Inv done s → L.Chain source source via v → L.relays v →
    (∀ x ∈ done, ¬ L.Below source v x) → t ∈ W.sides s v → L.hears v .side t ∨ idle t
  downs_inv : ∀ {done s v}, Inv done s → Inv done (W.downs s v).2
  downs_data : ∀ {s v x d}, Data x d s → Data x d (W.downs s v).2
  downs_nodup : ∀ {done s v}, Inv done s → (W.downs s v).1.Nodup
  mem_downs : ∀ {done s v via t}, Inv done s → L.Chain source source via v → L.relays v →
    L.hears v .down t → t ∈ (W.downs s v).1
  of_mem_downs : ∀ {done s v via t}, Inv done s → L.Chain source source via v → L.relays v →
    (∀ x ∈ done, L.Below source v x → L.hears v .side x) → t ∈ (W.downs s v).1 →
    L.hears v .down t ∨ idle t
  onSide_inv : ∀ {done s v via t d}, Inv done s → L.Chain source source via v → Data v d s →
    L.hears v .side t → t ≠ source → t ∉ done → Inv (done ++ [t]) (W.onSide s t d)
  onSide_data : ∀ {done s v via t d x d'}, Inv done s → L.Chain source source via v → Data v d s →
    L.hears v .side t → t ≠ source → t ∉ done → Data x d' s → Data x d' (W.onSide s t d)
  onDown_spec : ∀ {done s v via t d}, Inv done s → L.Chain source source via v → Data v d s →
    L.hears v .down t → t ≠ source → t ∉ done →
    ∃ d' s', W.onDown s t d = (some d', s') ∧ Inv (done ++ [t]) s' ∧ Data t d' s' ∧
      ∀ x d', Data x d' s → Data x d' s'
  onSide_idle : ∀ {done s t d}, Inv done s → idle t → W.onSide s t d = s
  onDown_idle : ∀ {done s t d}, Inv done s → idle t → W.onDown s t d = (none, s)
  side_ne_source : ∀ {v via t}, L.Chain source source via v → L.hears v .side t → t ≠ source

/-- The list of visited nodes: the source, and relays that have been handled. -/
structure VisitedOk (L : Links V) (source : V) (done visited : List V) : Prop where
  nodup : visited.Nodup
  mem_source : source ∈ visited
  forwards : ∀ x ∈ visited, x = source ∨ (x ∈ done ∧ L.Forwards source x)

section Spec

variable {W : Walker σ V D} {L : Links V} {source v t u : V} {Inv : List V → σ → Prop}
  {Data : V → D → σ → Prop} {idle : V → Prop} {limit : ℕ} {via done visited : List V} {d : D}
  {fuel : ℕ}

theorem VisitedOk.length_le (h : VisitedOk L source done visited)
    (hlimit : ∀ xs : List V, xs.Nodup → (∀ x ∈ xs, L.Forwards source x) → xs.length < limit) :
    visited.length ≤ limit := by
  have hlt := hlimit (visited.erase source) (h.nodup.erase source) (by
    intro x hx
    have hx' := h.nodup.mem_erase_iff.mp hx
    exact ((h.forwards x hx'.2).resolve_left hx'.1).2)
  have hlen := length_erase_of_mem h.mem_source
  omega

omit [DecidableEq V] in
theorem VisitedOk.mono {done' : List V} (h : VisitedOk L source done visited)
    (hsub : ∀ x ∈ done, x ∈ done') : VisitedOk L source done' visited :=
  { h with forwards := fun x hx => (h.forwards x hx).imp_right fun hx => ⟨hsub x hx.1, hx.2⟩ }

omit [DecidableEq V] in
/-- The loop over the side links handles each of them. -/
theorem foldl_onSide (hW : W.Follows L source Inv Data idle) (hv : L.Chain source source via v) :
    ∀ (l : List V) {done : List V} {s : σ}, Inv done s → Data v d s → l.Nodup →
      (∀ t ∈ l, L.hears v .side t ∨ idle t) → (∀ t ∈ l, L.hears v .side t → t ∉ done) →
      ∃ done', Inv done' (l.foldl (fun s t => W.onSide s t d) s) ∧
        (∀ t, t ∈ done' ↔ t ∈ done ∨ (t ∈ l ∧ L.hears v .side t)) ∧
        ∀ x d', Data x d' s → Data x d' (l.foldl (fun s t => W.onSide s t d) s) := by
  intro l
  induction l with
  | nil => grind
  | cons t l ih =>
    intro done s hinv hdata hnodup hkind hfresh
    obtain ⟨htl, hnodup⟩ := nodup_cons.mp hnodup
    have hkind' : ∀ t ∈ l, L.hears v .side t ∨ idle t := fun t' h =>
      hkind t' (mem_cons_of_mem t h)
    simp only [foldl_cons]
    by_cases hears : L.hears v .side t
    · have hts := hW.side_ne_source hv hears
      have hnew : t ∉ done := hfresh t mem_cons_self hears
      have hdata' : ∀ x d', Data x d' s → Data x d' (W.onSide s t d) := fun x d' h =>
        hW.onSide_data hinv hv hdata hears hts hnew h
      obtain ⟨done', hinv', hmem, hpres⟩ := ih (hW.onSide_inv hinv hv hdata hears hts hnew)
        (hdata' v d hdata) hnodup hkind' (by
          intro t' ht' hears' hin
          rcases mem_append.mp hin with hin | hin
          · exact hfresh t' (mem_cons_of_mem t ht') hears' hin
          · exact htl (mem_singleton.mp hin ▸ ht'))
      refine ⟨done', hinv', ?_, fun x d' h => hpres x d' (hdata' x d' h)⟩
      intro t'
      rw [hmem t', mem_append, mem_singleton, mem_cons]
      constructor
      all_goals grind
    · -- a node that the event does not go to is idle
      have hidle := (hkind t mem_cons_self).resolve_left hears
      rw [hW.onSide_idle hinv hidle]
      obtain ⟨done', hinv', hmem, hpres⟩ := ih hinv hdata hnodup hkind'
        (fun t' ht' => hfresh t' (mem_cons_of_mem t ht'))
      refine ⟨done', hinv', ?_, hpres⟩
      intro t'
      rw [hmem t', mem_cons]
      constructor
      · exact Or.imp_right fun h => ⟨.inr h.1, h.2⟩
      · grind

/-- The statement proved of a visit, by induction on the bound of its nesting: the nodes below `v`
are handled, and nothing else. -/
def VisitSpec (W : Walker σ V D) (L : Links V) (source : V) (Inv : List V → σ → Prop)
    (Data : V → D → σ → Prop) (limit fuel : ℕ) : Prop :=
  ∀ {s : σ} {v : V} {d : D} {visited via done : List V}, Inv done s → Data v d s →
    L.Chain source source via v → L.relays v → (∀ t, L.Below source v t → t ∉ done) →
    VisitedOk L source done visited → limit + 2 ≤ fuel + visited.length →
    ∃ done', Inv done' (W.visit limit fuel s v d visited).1 ∧
      (∀ t, t ∈ done' ↔ t ∈ done ∨ L.Below source v t) ∧
      VisitedOk L source done' (W.visit limit fuel s v d visited).2 ∧
      visited.length ≤ (W.visit limit fuel s v d visited).2.length ∧
      ∀ x d', Data x d' s → Data x d' (W.visit limit fuel s v d visited).1

/-- What the walk does with `t` at a down link of `v`. -/
def Under (L : Links V) (source t u : V) : Prop :=
  t ≠ source ∧ (u = t ∨ (L.relays t ∧ L.Below source t u))

/-- **One node at a down link.**  It is handled, and what is below it too when it is a relay. -/
theorem goDown_spec (hW : W.Follows L source Inv Data idle)
    (ih : VisitSpec W L source Inv Data limit fuel)
    (hv : L.Chain source source via v) (hears : L.hears v .down t)
    {acc : σ × List V} (hinv : Inv done acc.1) (hdata : Data v d acc.1)
    (hvis : VisitedOk L source done acc.2) (hfuel : limit + 2 ≤ fuel + 1 + acc.2.length)
    (hU : L.UniqueRoutes source) (hfresh : ∀ u, Under L source t u → u ∉ done) :
    let result := W.goDown (W.visit limit fuel) d acc t
    ∃ done', Inv done' result.1 ∧ (∀ u, u ∈ done' ↔ u ∈ done ∨ Under L source t u) ∧ VisitedOk L
      source done' result.2 ∧ acc.2.length ≤ result.2.length ∧ ∀ x d', Data x d' acc.1 → Data x d'
      result.1 := by
  unfold goDown
  by_cases hts : t = source
  · -- the source is in the list from the start
    grind [hvis.mem_source, Under]
  · have hnew : t ∉ done := hfresh t ⟨hts, .inl rfl⟩
    have hnotvis : t ∉ acc.2 := fun hmem => hnew ((hvis.forwards t hmem).resolve_left hts).1
    rw [if_neg hnotvis]
    obtain ⟨d', s', hdown, hinv', hdata', hpres⟩ :=
      hW.onDown_spec hinv hv hdata hears hts hnew
    have hbelow : L.Below source source t :=
      hv.below_source (Links.below_iff.mpr ⟨hts, .inr (.inl hears)⟩)
    have hrelays := hW.relays_iff hinv' (.inr hbelow)
    have hvis' : VisitedOk L source (done ++ [t]) acc.2 :=
      hvis.mono fun x hx => mem_append_left _ hx
    rw [hdown]
    dsimp only
    by_cases hrelay : L.relays t
    · rw [if_pos (hrelays.mpr hrelay)]
      have hforward : L.Forwards source t := by
        exact ⟨hts, hrelay, via, by simpa using hv.reaches (Links.reaches_nil hears)⟩
      have hvis'' : VisitedOk L source (done ++ [t]) (acc.2 ++ [t]) := by
        refine ⟨by simpa using hvis.nodup.concat hnotvis,
          mem_append_left _ hvis.mem_source, ?_⟩
        intro x hx
        rcases mem_append.mp hx with hx | hx
        · exact hvis'.forwards x hx
        · grind
      obtain ⟨done', hinv₂, hmem, hvis₂, hlen, hpres₂⟩ := ih hinv' hdata'
        (hv.snoc hears hrelay hts) hrelay (by
          intro u hu hin
          rcases mem_append.mp hin with hin | hin
          · exact hfresh u ⟨hts, .inr ⟨hrelay, hu⟩⟩ hin
          · rw [mem_singleton.mp hin] at hu
            exact hU.not_below_of_hears hv hears hears hrelay hts hu)
        hvis'' (by simp only [length_append, length_singleton]; omega)
      refine ⟨done', hinv₂, ?_, hvis₂, ?_, fun x e h => hpres₂ x e (hpres x e h)⟩
      · intro u
        rw [hmem u, mem_append, mem_singleton]
        constructor
        all_goals grind [Under]
      · rw [length_append] at hlen
        omega
    · grind [Under]

omit [DecidableEq V] in
/-- What the walk does at two different down links has nothing in common. -/
theorem Under.disjoint (hU : L.UniqueRoutes source) {t' : V}
    (hv : L.Chain source source via v) (hears : L.hears v .down t) (hears' : L.hears v .down t')
    (hne : t ≠ t') (hu : Under L source t u) : ¬ Under L source t' u := by
  rintro ⟨hts', h'⟩
  obtain ⟨hts, h⟩ := hu
  rcases h with rfl | ⟨hrelay, hbelow⟩
  · grind [hU.not_below_of_hears]
  · grind [hU.not_below_of_hears, hU.not_below_of_ne]

omit [DecidableEq V] in
theorem below_of_under (hears : L.hears v .down t) (hu : Under L source t u) :
    L.Below source v u := by
  obtain ⟨hne, rfl | ⟨hrelay, hbelow⟩⟩ := hu
  · exact Links.below_iff.mpr ⟨hne, .inr (.inl hears)⟩
  · exact Links.below_iff.mpr ⟨hbelow.1, .inr (.inr ⟨t, hears, hrelay, hne, hbelow⟩)⟩

omit [DecidableEq V] in
theorem not_side_of_under (hU : L.UniqueRoutes source)
    (hv : L.Chain source source via v) (hears : L.hears v .down t) (hu : Under L source t u) :
    ¬ L.hears v .side u := by
  obtain ⟨hne, rfl | ⟨hrelay, hbelow⟩⟩ := hu
  · exact hU.not_side_of_down hv hne hears
  · exact fun hside => hU.not_below_of_hears hv hside hears hrelay hne hbelow

variable (hW : W.Follows L source Inv Data idle) (hU : L.UniqueRoutes source)
include hW hU

theorem foldl_goDown (ih : VisitSpec W L source Inv Data limit fuel)
    (hv : L.Chain source source via v) :
    ∀ (l : List V) (acc : σ × List V) {done : List V}, Inv done acc.1 → Data v d acc.1 → l.Nodup →
      (∀ t ∈ l, L.hears v .down t ∨ idle t) →
      (∀ t ∈ l, L.hears v .down t → ∀ u, Under L source t u → u ∉ done) →
      VisitedOk L source done acc.2 → limit + 2 ≤ fuel + 1 + acc.2.length →
      let result := l.foldl (W.goDown (W.visit limit fuel) d) acc
      ∃ done', Inv done' result.1 ∧
        (∀ u, u ∈ done' ↔ u ∈ done ∨ ∃ t ∈ l, L.hears v .down t ∧ Under L source t u) ∧
        VisitedOk L source done' result.2 ∧ acc.2.length ≤ result.2.length ∧
        ∀ x d', Data x d' acc.1 → Data x d' result.1 := by
  intro l
  induction l with
  | nil => grind
  | cons t l ihl =>
    intro acc done hinv hdata hnodup hkind hfresh hvis hfuel
    obtain ⟨htl, hnodup⟩ := nodup_cons.mp hnodup
    have hkind' : ∀ t ∈ l, L.hears v .down t ∨ idle t := fun t' h =>
      hkind t' (mem_cons_of_mem t h)
    simp only [foldl_cons]
    by_cases hears : L.hears v .down t
    · obtain ⟨done₁, hinv₁, hmem₁, hvis₁, hlen₁, hpres₁⟩ := goDown_spec hW ih hv hears hinv hdata
        hvis hfuel hU (hfresh t mem_cons_self hears)
      obtain ⟨done', hinv', hmem, hvis', hlen, hpres⟩ := ihl _ hinv₁ (hpres₁ v d hdata) hnodup
        hkind'
        (by
          intro t' ht' hears' u hu hin
          rcases (hmem₁ u).mp hin with hin | hin
          · exact hfresh t' (mem_cons_of_mem t ht') hears' u hu hin
          · exact Under.disjoint hU hv hears hears' (fun h => htl (h ▸ ht')) hin hu)
        hvis₁ (by omega)
      refine ⟨done', hinv', ?_, hvis', by omega, fun x d' h => hpres x d' (hpres₁ x d' h)⟩
      intro u
      rw [hmem u, hmem₁ u, or_assoc]
      simp [hears]
    · have hidle := (hkind t mem_cons_self).resolve_left hears
      have hskip : W.goDown (W.visit limit fuel) d acc t = acc := by grind [goDown, hW.onDown_idle]
      grind

variable (hlimit : ∀ xs : List V, xs.Nodup → (∀ x ∈ xs, L.Forwards source x) → xs.length < limit)
include hlimit

/-- **A visit handles the nodes below its node, each once, and no other.** -/
theorem visit_spec : VisitSpec W L source Inv Data limit fuel := by
  induction fuel with
  | zero =>
    -- the bound on the nesting is never what stops the walk
    intro s v d visited via done _ _ _ _ _ hvis hfuel
    have := hvis.length_le hlimit
    omega
  | succ fuel ih =>
    intro s v d visited via done hinv hdata hv hrelay hfresh hvis hfuel
    have hrelays := (hW.relays_iff hinv hv.eq_or_below).mpr hrelay
    have hlen := hvis.length_le hlimit
    simp only [visit, hrelays, Bool.not_true, Bool.false_eq_true, if_false,
      if_neg (not_lt.mpr hlen)]
    -- the side links
    obtain ⟨done₁, hinv₁, hmem₁, hpres₁⟩ := foldl_onSide hW hv (W.sides s v) hinv hdata
      (hW.sides_nodup hinv) (fun t => hW.of_mem_sides hinv hv hrelay fun x hx h => hfresh x h hx)
      (fun t _ hears => hfresh t (Links.below_iff.mpr ⟨hW.side_ne_source hv hears, .inl hears⟩))
    generalize (W.sides s v).foldl (fun s t => W.onSide s t d) s = s₁ at hinv₁ hpres₁
    have hside : ∀ t, t ∈ done₁ ↔ t ∈ done ∨ L.hears v .side t := by grind [hW.mem_sides]
    -- the down links
    have hvis₁ : VisitedOk L source done₁ visited := hvis.mono fun x hx => (hside x).mpr (.inl hx)
    obtain ⟨done', hinv', hmem', hvis', hlen', hpres'⟩ := foldl_goDown hW hU ih hv
      (W.downs s₁ v).1 ((W.downs s₁ v).2, visited) (hW.downs_inv hinv₁)
      (hW.downs_data (hpres₁ v d hdata)) (hW.downs_nodup hinv₁)
      (fun t => hW.of_mem_downs hinv₁ hv hrelay fun x hx h =>
        ((hside x).mp hx).resolve_left (hfresh x h))
      (by
        rintro t - hears u hu hin
        rcases (hside u).mp hin with hin | hin
        · exact hfresh u (below_of_under hears hu) hin
        · exact not_side_of_under hU hv hears hu hin)
      hvis₁ hfuel
    refine ⟨done', hinv', ?_, hvis', hlen',
      fun x d' h => hpres' x d' (hW.downs_data (hpres₁ x d' h))⟩
    intro u
    rw [hmem' u, hside u, or_assoc]
    refine or_congr_right ?_
    constructor
    · grind [Links.below_iff, hW.side_ne_source, below_of_under]
    · intro hu
      obtain ⟨hne, h⟩ := Links.below_iff.mp hu
      rcases h with hears | hears | ⟨t, hears, hrelay', hts, hbelow⟩
      · exact .inl hears
      · exact .inr ⟨u, hW.mem_downs hinv₁ hv hrelay hears, hears, hne, .inl rfl⟩
      · exact .inr ⟨t, hW.mem_downs hinv₁ hv hrelay hears, hears, hts, .inr ⟨hrelay', hbelow⟩⟩

theorem visit_source
    (hrelay : L.relays source) {s : σ} (hinv : Inv [] s) (hdata : Data source d s) :
    ∃ done, Inv done (W.visit limit (limit + 1) s source d [source]).1 ∧
      ∀ t, t ∈ done ↔ L.Below source source t := by
  obtain ⟨done, hinv', hmem, -⟩ := visit_spec hW hU hlimit hinv hdata (.nil source)
    hrelay (fun t _ => not_mem_nil)
    ⟨nodup_singleton source, mem_singleton.mpr rfl, fun x hx => .inl (mem_singleton.mp hx)⟩ le_rfl
  exact ⟨done, hinv', by simpa using hmem⟩

end Spec
end Walker
end MangoCore
