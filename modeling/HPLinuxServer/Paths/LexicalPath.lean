import HPLinuxServer.Memory.Buffer

/-!
# Lexical paths

A path resolved without a look at the file system. A directory is the list of names that
lead to it from the root, and `..` goes back by one name, at the root by none.
-/

set_option autoImplicit false

namespace HPLinuxServer.Paths

open Memory

variable {α : Type}

inductive Component (α : Type) where
  | current
  | parent
  | name (entry : α)
  deriving DecidableEq, Repr

/-- The directory that a component leads to. -/
def enter (dir : List α) : Component α → List α
  | .current => dir
  | .parent => dir.dropLast
  | .name entry => dir ++ [entry]

def resolve (dir : List α) (components : List (Component α)) : List α :=
  components.foldl enter dir

/-- The way from a directory to another one: some steps up, then down by names. -/
structure Route (α : Type) where
  ups : Nat
  names : List α
  deriving DecidableEq, Repr

namespace Route

/-- The route with a component behind it. -/
def extend (route : Route α) : Component α → Route α
  | .current => route
  | .parent =>
      match route.names with
      | [] => { route with ups := route.ups + 1 }
      | _ :: _ => { route with names := route.names.dropLast }
  | .name entry => { route with names := route.names ++ [entry] }

/-- Where the route leads from a directory. -/
def leads (route : Route α) (dir : List α) : List α :=
  dir.take (dir.length - route.ups) ++ route.names

theorem leads_extend (route : Route α) (dir : List α) (component : Component α) :
    (route.extend component).leads dir = enter (route.leads dir) component := by
  cases component with
  | current => rfl
  | parent =>
      obtain ⟨ups, names⟩ := route
      cases names with
      | nil =>
          simp only [extend, leads, enter, List.append_nil]
          rw [List.dropLast_eq_take, List.length_take, List.take_take]
          congr 1
          omega
      | cons first more =>
          exact (List.dropLast_append_of_ne_nil (List.cons_ne_nil first more)).symm
  | name entry => exact (List.append_assoc _ _ _).symm

end Route

/-- The route of the components. -/
def route (components : List (Component α)) : Route α :=
  components.foldl Route.extend { ups := 0, names := [] }

theorem resolve_eq_leads (dir : List α) (components : List (Component α)) :
    resolve dir components = (route components).leads dir := by
  have follows : ∀ (components : List (Component α)) (start : Route α),
      components.foldl enter (start.leads dir) = (components.foldl Route.extend start).leads dir := by
    intro components
    induction components with
    | nil => intro start; rfl
    | cons component components ih =>
        intro start
        rw [List.foldl_cons, List.foldl_cons, ← Route.leads_extend]
        exact ih _
  have start : ({ ups := 0, names := [] } : Route α).leads dir = dir := by
    simp [Route.leads]
  have followed := follows components { ups := 0, names := [] }
  rwa [start] at followed

theorem resolve_append (dir : List α) (first second : List (Component α)) :
    resolve dir (first ++ second) = resolve (resolve dir first) second :=
  List.foldl_append

/-- A path stays below a directory if its route comes back by the names it has left. -/
theorem below_resolve_iff (dir : List α) (components : List (Component α)) :
    dir <+: resolve dir components ↔
      dir.drop (dir.length - (route components).ups) <+: (route components).names := by
  have split := List.take_append_drop (dir.length - (route components).ups) dir
  have same : dir.take (dir.length - (route components).ups) ++
        dir.drop (dir.length - (route components).ups) <+:
      dir.take (dir.length - (route components).ups) ++ (route components).names ↔
      dir.drop (dir.length - (route components).ups) <+: (route components).names :=
    List.prefix_append_right_inj _
  rw [split] at same
  rw [resolve_eq_leads, Route.leads]
  exact same

/-! ## Texts -/

/-- What stands between two slashes. -/
def component (segment : Text) : Component Text :=
  if segment = [] ∨ segment = [46] then .current
  else if segment = [46, 46] then .parent
  else .name segment

/-- The components of a path, which slashes separate. -/
def components (path : Text) : List (Component Text) := (path.splitOn 47).map component

theorem components_append (front rest : Text) :
    components (front ++ 47 :: rest) = components front ++ components rest := by
  unfold components
  rw [List.splitOn_append_cons_self, List.map_append]

/-- A slash at the start of a path makes no difference for its components. -/
theorem resolve_slash (dir : List Text) (rest : Text) :
    resolve dir (components (47 :: rest)) = resolve dir (components rest) := by
  have split := components_append [] rest
  rw [List.nil_append] at split
  rw [split, resolve_append]
  rfl

/-- The directory or file that an absolute path names. -/
def resolved (path : Text) : List Text := resolve [] (components path)

end HPLinuxServer.Paths
