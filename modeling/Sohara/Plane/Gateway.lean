import Sohara.Core.Equality
import Sohara.Ordering.Arrangements
import Sohara.Parsing.Segments
import Sohara.Plane.Declarations

/-! # Routing a request of the gateway

A request goes to a declared route whose path is a beginning of the path of the request,
segment by segment. The gateway compares texts instead, from which it has trimmed the
slashes at the start but not those at the end, and of the routes that it sees it takes the
longest by the bytes of the declared path, slashes included. So it can miss a route, and it
can take a shorter one: it routes a path right just in case it sees a longest route whose
declared path has more bytes than that of every route it sees with fewer segments.
-/

namespace Sohara

open Arrangements

namespace Assoc

variable {V : Type} {entries : Assoc V} {key : String} {value : V}

/-- An iteration order that comes to one key last. -/
def lastOrder (key : String) : HashOrder where
  order elements := elements.filter (· ≠ key) ++ elements.filter (· = key)
  perm elements := by
    have cut := List.filter_append_perm (fun element => decide (element ≠ key)) elements
    simpa only [decide_not, Bool.not_not] using cut

theorem exists_values_lastOrder (present : get? key entries = some value) :
    ∃ earlier, entries.values (lastOrder key) = earlier ++ [value] := by
  have member : key ∈ (entries.map Prod.fst).filter (· = key) := by
    refine List.mem_filter.mpr ⟨?_, decide_eq_true rfl⟩
    exact mem_keys_iff.mpr ⟨value, present⟩
  have last := List.getLast_mem (List.ne_nil_of_mem member)
  have named := of_decide_eq_true (List.mem_filter.mp last).2
  unfold values lastOrder
  dsimp only
  rw [← List.dropLast_concat_getLast (List.ne_nil_of_mem member), named, ← List.append_assoc,
    List.filterMap_append]
  refine ⟨_, congrArg _ ?_⟩
  rw [List.filterMap_cons, present]
  rfl

end Assoc

section Definitions

/-- A path without the slashes that it starts with. -/
def trimStartSlashes (path : String) : List Char :=
  path.toList.dropWhile (· = '/')

/-- The gateway sees a route: its trimmed path is the path of the request, or the path of the
request goes on behind it with a slash. -/
def RouteDecl.Sees (route : RouteDecl) (path : String) : Prop :=
  trimStartSlashes path = trimStartSlashes route.path ∨
    trimStartSlashes route.path ++ ['/'] <+: trimStartSlashes path

instance (route : RouteDecl) (path : String) : Decidable (route.Sees path) :=
  inferInstanceAs (Decidable (_ ∨ _))

/-- The length of a path in bytes. -/
def RouteDecl.length (route : RouteDecl) : Nat := route.path.utf8ByteSize

/-- The route of a request path: of the routes seen, the longest. -/
def Inner.findRoute (hash : HashOrder) (path : String) (inner : Inner) : Option RouteDecl :=
  maxByKey RouteDecl.length ((inner.routes.values hash).filter fun route => route.Sees path)

/-- The segments of the path of a route. -/
def RouteDecl.segments (route : RouteDecl) : List (List Char) :=
  Parsing.segments '/' route.path.toList

/-- The segments of the route are the first of those of the request path. -/
def RouteDecl.Matches (route : RouteDecl) (path : String) : Prop :=
  route.segments <+: Parsing.segments '/' path.toList

instance (route : RouteDecl) (path : String) : Decidable (route.Matches path) :=
  inferInstanceAs (Decidable (_ <+: _))

namespace Inner

/-- A route that is declared under some id. -/
def Declares (inner : Inner) (route : RouteDecl) : Prop :=
  ∃ id, inner.routes.get? id = some route

/-- A declared route that matches a request path with the most segments. -/
structure Longest (inner : Inner) (path : String) (route : RouteDecl) : Prop where
  declared : inner.Declares route
  begins : route.Matches path
  longest : ∀ other, inner.Declares other → other.Matches path →
    other.segments.length ≤ route.segments.length

/-- A request path goes to a matching route with the most segments, and to none if none
matches. -/
def RoutesLongest (inner : Inner) (path : String) : Prop :=
  ∀ hash, (∀ route, inner.findRoute hash path = some route → inner.Longest path route) ∧
    (inner.findRoute hash path = none ↔ ∀ route, inner.Declares route → ¬ route.Matches path)

end Inner

end Definitions

namespace Inner

variable {inner : Inner} {path : String} {route other : RouteDecl} {hash : HashOrder}

/-- What the gateway sees matches. -/
theorem matches_of_sees (sees : route.Sees path) : route.Matches path := by
  rcases sees with same | goes_on
  · have equal : Parsing.segments '/' path.toList = Parsing.segments '/' route.path.toList :=
      Parsing.segments_congr same
    unfold RouteDecl.Matches
    rw [equal]
    exact List.prefix_rfl
  · exact Parsing.segments_prefix goes_on

theorem mem_seen : route ∈ (inner.routes.values hash).filter (fun route => route.Sees path) ↔
    inner.Declares route ∧ route.Sees path := by
  rw [List.mem_filter, Assoc.mem_values, decide_eq_true_iff]
  rfl

theorem findRoute_eq_none_iff :
    inner.findRoute hash path = none ↔ ∀ route, inner.Declares route → ¬ route.Sees path := by
  unfold findRoute
  rw [maxByKey_eq_none_iff, List.eq_nil_iff_forall_not_mem]
  refine forall_congr' fun route => ?_
  rw [mem_seen, not_and]

/-- What is found is seen, and no other route that is seen has a longer path. -/
theorem of_findRoute (found : inner.findRoute hash path = some route) :
    inner.Declares route ∧ route.Sees path ∧
      ∀ other, inner.Declares other → other.Sees path → other.length ≤ route.length := by
  obtain ⟨declared, sees⟩ := mem_seen.mp (mem_of_maxByKey found)
  refine ⟨declared, sees, fun other present seen => ?_⟩
  exact le_of_maxByKey found (mem_seen.mpr ⟨present, seen⟩)

/-- Every longest route of those seen is found in some iteration order. -/
theorem exists_findRoute (declared : inner.Declares route) (sees : route.Sees path)
    (greatest : ∀ other, inner.Declares other → other.Sees path → other.length ≤ route.length) :
    ∃ hash, inner.findRoute hash path = some route := by
  obtain ⟨id, present⟩ := declared
  obtain ⟨earlier, listed⟩ := Assoc.exists_values_lastOrder present
  refine ⟨Assoc.lastOrder id, ?_⟩
  unfold findRoute
  rw [listed, List.filter_append, List.filter_singleton, decide_eq_true sees]
  refine maxByKey_concat fun other member => ?_
  have seen : other ∈ (inner.routes.values (Assoc.lastOrder id)).filter
      (fun route => route.Sees path) := by
    rw [listed, List.filter_append]
    exact List.mem_append_left _ member
  obtain ⟨present, sees⟩ := mem_seen.mp seen
  exact greatest other present sees

/-- **When requests go to the longest route.** If some declared route matches, the gateway
has to see a longest one, whose declared path has more bytes than that of every route it
sees with fewer segments. -/
theorem routesLongest_iff (inner : Inner) (path : String) :
    inner.RoutesLongest path ↔
      ((∃ route, inner.Declares route ∧ route.Matches path) →
        ∃ route, inner.Longest path route ∧ route.Sees path ∧
          ∀ other, inner.Declares other → other.Sees path →
            other.segments.length < route.segments.length → other.length < route.length) := by
  constructor
  · rintro routes ⟨matching, declared, begins⟩
    obtain ⟨hash⟩ : Nonempty HashOrder := ⟨⟨id, List.Perm.refl⟩⟩
    obtain ⟨longest_found, none_found⟩ := routes hash
    cases found : inner.findRoute hash path with
    | none => exact absurd begins (none_found.mp found matching declared)
    | some route =>
        obtain ⟨present, sees, greatest⟩ := of_findRoute found
        have longest := longest_found route found
        refine ⟨route, longest, sees, fun other otherPresent otherSees shorter => ?_⟩
        refine Nat.lt_of_le_of_ne (greatest other otherPresent otherSees) fun same => ?_
        -- Of two equally long paths, the one that is iterated last is taken.
        obtain ⟨order, taken⟩ := exists_findRoute otherPresent otherSees fun third declared seen =>
          (greatest third declared seen).trans (Nat.le_of_eq same.symm)
        have most := ((routes order).1 other taken).longest route present longest.begins
        exact Nat.not_le.mpr shorter most
  · intro sighted hash
    refine ⟨fun route found => ?_, ?_⟩
    · obtain ⟨declared, sees, greatest⟩ := of_findRoute found
      have begins := matches_of_sees sees
      obtain ⟨first, longest, seen, longer⟩ := sighted ⟨route, declared, begins⟩
      have most : first.segments.length ≤ route.segments.length := by
        by_contra fewer
        have bytes := longer route declared sees (Nat.not_le.mp fewer)
        exact Nat.not_le.mpr bytes (greatest first longest.declared seen)
      exact ⟨declared, begins, fun other present matching =>
        (longest.longest other present matching).trans most⟩
    · rw [findRoute_eq_none_iff]
      constructor
      · intro unseen route declared begins
        obtain ⟨first, longest, seen, -⟩ := sighted ⟨route, declared, begins⟩
        exact unseen first longest.declared seen
      · intro unmatched route declared sees
        exact unmatched route declared (matches_of_sees sees)

end Inner

namespace Sample

open Sohara.Inner

/-- The registry in which routes with these ids and paths are declared. -/
def routed (paths : List (String × String)) : Inner :=
  served [] [] [] (paths.map fun entry =>
    .call (.declareRoute { id := entry.1, path := entry.2, flowId := entry.1 }))

/-- **A request goes nowhere, and a request goes to a shorter route.** The root route has no
segments, and the gateway does not see it. The slashes at the start of a path are trimmed,
and they count. -/
theorem slashes_misroute :
    ¬ (routed [("root", "/")]).RoutesLongest "orders" ∧
      ¬ (routed [("short", "////a"), ("long", "/a/b")]).RoutesLongest "a/b" := by
  constructor
  · intro routes
    have found := (routes insertionOrder).2.mp (by decide)
    refine found { id := "root", path := "/", flowId := "root" } ⟨"root", rfl⟩ ?_
    exact List.nil_prefix
  · intro routes
    have taken := (routes insertionOrder).1 { id := "short", path := "////a", flowId := "short" }
      (by decide)
    have most := taken.longest { id := "long", path := "/a/b", flowId := "long" } ⟨"long", rfl⟩
      (by decide)
    exact absurd most (by decide)

end Sample

end Sohara
