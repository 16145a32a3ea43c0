import TodoWatch.Screen

/-! # The pages of the activity

`MainActivity` with its `ViewPager2`. The framework decides when it asks the adapter for the fragment of a
position and when it creates its view. A fix of `getCurrentLocation` goes to the fragment that the fragment
manager finds under the tag of the current page, if it finds one; other fragments, and those that are created
later, hear nothing of it. -/

namespace TodoWatch

/-- A location that was delivered, with the clock at its delivery. -/
structure Fix where
  lat : ℚ
  lng : ℚ
  time : Int
  deriving DecidableEq, Repr

/-- The position for which a fragment was created, and the last fix that was handed to it. -/
structure Page where
  position : Nat
  handed : Option Fix
  deriving DecidableEq, Repr

/-- A list that was drawn: what its items were ranked with, and the latest fix at that time. -/
structure Drawing where
  ranked : Fix
  latest : Option Fix
  deriving DecidableEq, Repr

/-- `pages` goes with the fragments of the screen. The activity's `lat` and `lng` are those of `latest`. -/
structure Pages where
  screen : Screen
  currentItem : Nat
  pages : List Page
  latest : Option Fix
  drawings : List Drawing

def FilteredTodoFragment.fix (fragment : FilteredTodoFragment) : Fix := ⟨fragment.lat, fragment.lng, fragment.time⟩

namespace Pages

def onCreate (personalTodoItems groupTodoItems : List TodoItem) (prefs : Preferences) (user : User) : Pages where
  screen := Screen.onCreate personalTodoItems groupTodoItems prefs user
  currentItem := 0
  pages := []
  latest := none
  drawings := []

inductive Event where
  | onPageSelected (position : Nat)
  | createFragment (position : Nat)
  | onViewCreated (f : Nat)
  | tick (f box : Nat)
  /-- `found` is the fragment that `findFragmentByTag` returns. -/
  | onLocation (fix : Fix) (found : Option Nat)
  deriving DecidableEq, Repr

/-- The screen after a fragment has drawn its list. -/
def drew (s : Pages) (screen : Screen) (fragment : FilteredTodoFragment) : Pages :=
  { s with screen, drawings := s.drawings ++ [⟨fragment.fix, s.latest⟩] }

def hand (s : Pages) (fix : Fix) (f : Nat) (page : Page) : Pages :=
  { s with pages := s.pages.set f { page with handed := some fix } }

/-- The completion of `getCurrentLocation` with a location. -/
def onLocation (gson : Gson) (zone : Int → Int) (s : Pages) (fix : Fix) (found : Option Nat) : Option Pages :=
  let s := { s with latest := some fix }
  match found with
  | none => some s
  | some f => do
    let page ← s.pages[f]?
    let fragment ← s.screen.fragments[f]?
    if page.position = s.currentItem then
      let screen ← s.screen.step gson zone (.updateLocationAndTime f fix.lat fix.lng fix.time)
      let s := s.hand fix f page
      -- Without a view there is nothing to draw.
      match fragment.view with
      | some _ => some (s.drew screen { fragment with lat := fix.lat, lng := fix.lng, time := fix.time })
      | none => some { s with screen }
    else none

/-- The next state of a run in which no handler throws. -/
def step (gson : Gson) (zone : Int → Int) (s : Pages) : Event → Option Pages
  | .onPageSelected position =>
    (s.screen.step gson zone (.onPageSelected position)).map fun screen => { s with screen, currentItem := position }
  | .createFragment position =>
    (s.screen.step gson zone (.createFragment position)).map fun screen =>
      { s with screen, pages := s.pages ++ [⟨position, none⟩] }
  | .onViewCreated f => do
    let screen ← s.screen.step gson zone (.onViewCreated f)
    let fragment ← s.screen.fragments[f]?
    return s.drew screen fragment
  | .tick f box => do
    let screen ← s.screen.step gson zone (.tick f box)
    let fragment ← s.screen.fragments[f]?
    return s.drew screen fragment
  | .onLocation fix found => s.onLocation gson zone fix found

end Pages

end TodoWatch
