import LogGenerator.Foundation.Machine
import LogGenerator.Infrastructure.JsonLogCatalog

/-!
# Seeding the user catalog

Any number of `initialize_runtime_catalog` and `JsonLogCatalog::save` calls on one
destination, interleaved at each call of the file system. Every temporary name is
distinct, so the temporaries are apart from each other and from the destination;
publishing one creates the destination if it is absent, and `rename` is atomic.
-/

namespace LogGenerator
namespace Infrastructure

open Ascii Application Domain JsonLogCatalog

/-- What stands at the path of the user catalog. -/
inductive Destination where
  | absent
  | regular (content : Bytes)
  | other
  deriving DecidableEq

def Destination.exists : Destination → Bool
  | .absent => false
  | .regular _ | .other => true

def Destination.isRegular : Destination → Bool
  | .regular _ => true
  | .absent | .other => false

/-- `none` where the operating system does what the state lets it do. A refusal has an error
code; a refused write has written that many bytes. -/
abbrev Answer := Option ℕ

/-- What an initialiser is given. `bundle` is the bundled file, when there is one. -/
structure SeedCall where
  packaged : Bool
  bundle : Option Bytes

/-- The call an initialiser makes next. `remove` is the destructor of the temporary catalog, on
the way to a return or out of an exception. -/
inductive SeedPc where
  | exists | checkRegular | createDirectories | openCopy | copy | permissions | publish
  | checkPublished
  | remove (returns : Bool)
  | done (returned : Bool)
  deriving DecidableEq

structure Seed where
  temporary : Option Bytes := none
  pc : SeedPc := .exists
  deriving DecidableEq

/-- `publish_catalog` up to its error test: a hard link, or a move on Windows. -/
def publishCatalog (windows : Bool) (answer : Answer) (destination : Destination) (seed : Seed) :
    Destination × Seed :=
  match seed.temporary, destination, answer with
  | some content, .absent, none =>
    (.regular content, { temporary := if windows then none else some content, pc := .remove true })
  | _, _, _ => (destination, { seed with pc := .checkPublished })

/-- The next step of `initialize_runtime_catalog`. -/
def seedStep (windows : Bool) (call : SeedCall) (answer : Answer) (destination : Destination)
    (seed : Seed) : Option (Destination × Seed) :=
  match seed.pc with
  | .exists =>
    if !call.packaged then some (destination, { seed with pc := .done true })
    else if answer ≠ none then some (destination, { seed with pc := .done false })
    else if destination.exists then some (destination, { seed with pc := .checkRegular })
    else some (destination, { seed with pc := .createDirectories })
  | .checkRegular =>
    some (destination, { seed with pc := .done (answer = none && destination.isRegular) })
  | .createDirectories =>
    some (destination, { seed with pc := if answer = none then .openCopy else .done false })
  | .openCopy =>
    if answer = none && call.bundle.isSome then
      some (destination, { temporary := some [], pc := .copy })
    else some (destination, { seed with pc := .remove false })
  | .copy =>
    let bundle := call.bundle.getD []
    match answer with
    | none => some (destination, { temporary := some bundle, pc := .permissions })
    | some written =>
      some (destination, { temporary := some (bundle.take written), pc := .remove false })
  | .permissions =>
    some (destination, { seed with pc := if answer = none then .publish else .remove false })
  | .publish => some (publishCatalog windows answer destination seed)
  | .checkPublished =>
    some (destination, { seed with pc := .remove (answer = none && destination.isRegular) })
  | .remove returns =>
    some (destination,
      { temporary := if answer = none then none else seed.temporary, pc := .done returns })
  | .done _ => none

inductive SavePc where
  | check
  | createDirectories (root : Json)
  | openOutput (root : Json)
  | write (root : Json)
  | move (attempt : ℕ)
  | remove
  | done (returned : Bool)

structure Save where
  temporary : Option Bytes := none
  pc : SavePc := .check

/-- The next step of `JsonLogCatalog::save`. -/
def saveStep (windows : Bool) (L : JsonLibrary) (file : Bytes) (items : List LogTemplate)
    (answer : Answer) (destination : Destination) (save : Save) : Option (Destination × Save) :=
  match save.pc with
  | .check =>
    match savedItems file [] items with
    | .error _ => some (destination, { save with pc := .done false })
    | .ok logs => some (destination, { save with pc := .createDirectories (rootJson logs) })
  | .createDirectories root =>
    some (destination, { save with pc := if answer = none then .openOutput root else .done false })
  | .openOutput root =>
    if answer = none then some (destination, { temporary := some [], pc := .write root })
    else some (destination, { save with pc := .done false })
  | .write root =>
    match L.dump root with
    | .error _ => some (destination, { save with pc := .done false })
    | .ok text =>
      match answer with
      | none => some (destination, { temporary := some (text ++ [lf]), pc := .move 0 })
      | some written =>
        some (destination, { temporary := some ((text ++ [lf]).take written), pc := .done false })
  | .move attempt =>
    match save.temporary, answer with
    | some content, none => some (.regular content, { temporary := none, pc := .done true })
    | _, none => some (destination, { save with pc := .remove })
    | _, some error =>
      if windows && error ∈ retryableErrors && attempt < 6 then
        some (destination, { save with pc := .move (attempt + 1) })
      else some (destination, { save with pc := .remove })
  | .remove =>
    some (destination,
      { temporary := if answer = none then none else save.temporary, pc := .done false })
  | .done _ => none

/-- What the calls are given: initialiser `i` and save `j` for every `i` and `j`. -/
structure Calls where
  windows : Bool
  library : JsonLibrary
  file : Bytes
  seeds : ℕ → SeedCall
  items : ℕ → List LogTemplate

structure SeedState where
  destination : Destination
  seeds : ℕ → Seed
  saves : ℕ → Save

inductive SeedAction where
  | seed (i : ℕ) (answer : Answer)
  | save (j : ℕ) (answer : Answer)

def catalogStep (calls : Calls) (s : SeedState) : SeedAction → Option SeedState
  | .seed i answer =>
    (seedStep calls.windows (calls.seeds i) answer s.destination (s.seeds i)).map fun next =>
      { s with destination := next.1, seeds := Function.update s.seeds i next.2 }
  | .save j answer =>
    (saveStep calls.windows calls.library calls.file (calls.items j) answer s.destination
      (s.saves j)).map fun next =>
        { s with destination := next.1, saves := Function.update s.saves j next.2 }

/-- At first `original` stands at the destination, and no call has done anything. -/
def userCatalog (calls : Calls) (original : Destination) : Machine SeedState SeedAction where
  initial := ⟨original, fun _ => {}, fun _ => {}⟩
  step := catalogStep calls

section Calls

variable {calls : Calls} {windows : Bool} {call : SeedCall} {answer : Answer}
  {destination destination' : Destination} {seed seed' : Seed} {save save' : Save}
  {temporary : Option Bytes} {L : JsonLibrary} {file : Bytes} {items : List LogTemplate}

/-- What an initialiser relies on before its next call. -/
def SeedOk (call : SeedCall) (destination : Destination) (seed : Seed) : Prop :=
  match seed.pc with
  | .exists | .checkRegular | .createDirectories | .openCopy => seed.temporary = none
  | .copy => call.bundle.isSome = true
  | .permissions | .publish => seed.temporary = call.bundle
  | .checkPublished | .remove false | .done false => True
  | .remove true => destination.isRegular = true
  | .done true => call.packaged = true → destination.isRegular = true

/-- The complete text that a save writes. -/
def SavedText (L : JsonLibrary) (file : Bytes) (items : List LogTemplate) (text : Bytes) : Prop :=
  ∃ logs dumped, savedItems file [] items = .ok logs ∧ L.dump (rootJson logs) = .ok dumped ∧
    text = dumped ++ [lf]

def SaveOk (L : JsonLibrary) (file : Bytes) (items : List LogTemplate) (save : Save) : Prop :=
  match save.pc with
  | .createDirectories root | .openOutput root | .write root =>
    ∃ logs, savedItems file [] items = .ok logs ∧ root = rootJson logs
  | .move _ => ∃ text, save.temporary = some text ∧ SavedText L file items text
  | .check | .remove | .done _ => True

theorem SeedOk.mono (h : SeedOk call destination seed)
    (hregular : destination.isRegular = true → destination'.isRegular = true) :
    SeedOk call destination' seed := by
  obtain ⟨temporary, pc⟩ := seed
  cases pc with
  | remove returns =>
    cases returns with
    | true => exact hregular h
    | false => trivial
  | done returned =>
    cases returned with
    | true => exact fun hpackaged => hregular (h hpackaged)
    | false => trivial
  | _ => exact h

/-- A step of an initialiser leaves the destination alone, or puts the bundle where nothing was. -/
theorem seedStep_destination (hok : SeedOk call destination seed)
    (h : seedStep windows call answer destination seed = some (destination', seed')) :
    destination' = destination ∨
      destination = .absent ∧ ∃ content, call.bundle = some content ∧
        destination' = .regular content := by
  obtain ⟨temporary, pc⟩ := seed
  cases pc with
  | publish =>
    simp only [seedStep, publishCatalog, Option.some.injEq] at h
    split at h
    · next content =>
      obtain ⟨rfl, -⟩ := Prod.mk.inj h
      exact .inr ⟨rfl, content, hok.symm, rfl⟩
    · exact .inl (Prod.mk.inj h).1.symm
  | «exists» =>
    left
    simp only [seedStep] at h
    split_ifs at h
    all_goals exact (Prod.mk.inj (Option.some.inj h)).1.symm
  | openCopy =>
    left
    simp only [seedStep] at h
    split_ifs at h
    all_goals exact (Prod.mk.inj (Option.some.inj h)).1.symm
  | copy =>
    left
    simp only [seedStep] at h
    split at h
    all_goals exact (Prod.mk.inj (Option.some.inj h)).1.symm
  | done => cases h
  | checkRegular | createDirectories | permissions | checkPublished | remove =>
    exact .inl (Prod.mk.inj (Option.some.inj h)).1.symm

theorem saveStep_destination (hok : SaveOk L file items save)
    (h : saveStep windows L file items answer destination save = some (destination', save')) :
    destination' = destination ∨
      ∃ text, SavedText L file items text ∧ destination' = .regular text := by
  obtain ⟨temporary, pc⟩ := save
  cases pc with
  | move attempt =>
    obtain ⟨text, rfl, htext⟩ := hok
    cases answer with
    | none => exact .inr ⟨text, htext, (Prod.mk.inj (Option.some.inj h)).1.symm⟩
    | some error =>
      simp only [saveStep] at h
      split_ifs at h
      all_goals exact .inl (Prod.mk.inj (Option.some.inj h)).1.symm
  | check =>
    left
    simp only [saveStep] at h
    split at h
    all_goals exact (Prod.mk.inj (Option.some.inj h)).1.symm
  | openOutput root =>
    left
    simp only [saveStep] at h
    split_ifs at h
    all_goals exact (Prod.mk.inj (Option.some.inj h)).1.symm
  | write root =>
    left
    simp only [saveStep] at h
    split at h
    · exact (Prod.mk.inj (Option.some.inj h)).1.symm
    · split at h
      all_goals exact (Prod.mk.inj (Option.some.inj h)).1.symm
  | done => cases h
  | createDirectories | remove => exact .inl (Prod.mk.inj (Option.some.inj h)).1.symm

theorem isRegular_seedStep (hok : SeedOk call destination seed)
    (h : seedStep windows call answer destination seed = some (destination', seed'))
    (hregular : destination.isRegular = true) : destination'.isRegular = true := by
  rcases seedStep_destination hok h with rfl | ⟨rfl, -⟩
  · exact hregular
  · cases hregular

theorem isRegular_saveStep (hok : SaveOk L file items save)
    (h : saveStep windows L file items answer destination save = some (destination', save'))
    (hregular : destination.isRegular = true) : destination'.isRegular = true := by
  rcases saveStep_destination hok h with rfl | ⟨text, -, rfl⟩
  · exact hregular
  · rfl

theorem seedOk_done {returned : Bool} (temporary : Option Bytes)
    (h : returned = true → call.packaged = true → destination.isRegular = true) :
    SeedOk call destination ⟨temporary, .done returned⟩ := by
  cases returned with
  | true => exact h rfl
  | false => trivial

theorem seedOk_remove {returns : Bool} (temporary : Option Bytes)
    (h : returns = true → destination.isRegular = true) :
    SeedOk call destination ⟨temporary, .remove returns⟩ := by
  cases returns with
  | true => exact h rfl
  | false => trivial

theorem seedOk_publish (hok : temporary = call.bundle)
    (h : publishCatalog windows answer destination ⟨temporary, .publish⟩ = (destination', seed')) :
    SeedOk call destination' seed' := by
  simp only [publishCatalog] at h
  split at h
  · obtain ⟨rfl, rfl⟩ := Prod.mk.inj h
    exact seedOk_remove _ fun _ => rfl
  · obtain ⟨rfl, rfl⟩ := Prod.mk.inj h
    trivial

/-- An initialiser goes on as it should. -/
theorem seedOk_step (hok : SeedOk call destination seed)
    (h : seedStep windows call answer destination seed = some (destination', seed')) :
    SeedOk call destination' seed' := by
  obtain ⟨temporary, pc⟩ := seed
  cases pc with
  | «exists» =>
    simp only [seedStep] at h
    split_ifs at h with hpackaged
    · obtain ⟨rfl, rfl⟩ := Prod.mk.inj (Option.some.inj h)
      apply seedOk_done
      intro _ hcall
      simp [hcall] at hpackaged
    · obtain ⟨rfl, rfl⟩ := Prod.mk.inj (Option.some.inj h)
      trivial
    · obtain ⟨rfl, rfl⟩ := Prod.mk.inj (Option.some.inj h)
      exact hok
    · obtain ⟨rfl, rfl⟩ := Prod.mk.inj (Option.some.inj h)
      exact hok
  | checkRegular =>
    obtain ⟨rfl, rfl⟩ := Prod.mk.inj (Option.some.inj h)
    exact seedOk_done _ fun hresult _ => (Bool.and_eq_true_iff.mp hresult).2
  | createDirectories =>
    obtain ⟨rfl, rfl⟩ := Prod.mk.inj (Option.some.inj h)
    split_ifs
    · exact hok
    · trivial
  | openCopy =>
    simp only [seedStep] at h
    split_ifs at h with hopened
    · obtain ⟨rfl, rfl⟩ := Prod.mk.inj (Option.some.inj h)
      exact (Bool.and_eq_true_iff.mp hopened).2
    · obtain ⟨rfl, rfl⟩ := Prod.mk.inj (Option.some.inj h)
      trivial
  | copy =>
    obtain ⟨content, hcontent⟩ := Option.isSome_iff_exists.mp hok
    simp only [seedStep] at h
    split at h
    · obtain ⟨rfl, rfl⟩ := Prod.mk.inj (Option.some.inj h)
      exact by rw [SeedOk, hcontent, Option.getD_some]
    · obtain ⟨rfl, rfl⟩ := Prod.mk.inj (Option.some.inj h)
      trivial
  | permissions =>
    obtain ⟨rfl, rfl⟩ := Prod.mk.inj (Option.some.inj h)
    split_ifs
    · exact hok
    · trivial
  | publish => exact seedOk_publish hok (Option.some.inj h)
  | checkPublished =>
    obtain ⟨rfl, rfl⟩ := Prod.mk.inj (Option.some.inj h)
    exact seedOk_remove _ fun hresult => (Bool.and_eq_true_iff.mp hresult).2
  | remove returns =>
    obtain ⟨rfl, rfl⟩ := Prod.mk.inj (Option.some.inj h)
    apply seedOk_done
    rintro rfl _
    exact hok
  | done => cases h

theorem saveOk_step (hok : SaveOk L file items save)
    (h : saveStep windows L file items answer destination save = some (destination', save')) :
    SaveOk L file items save' := by
  obtain ⟨temporary, pc⟩ := save
  cases pc with
  | check =>
    simp only [saveStep] at h
    split at h
    · obtain ⟨rfl, rfl⟩ := Prod.mk.inj (Option.some.inj h)
      trivial
    · next logs hlogs =>
      obtain ⟨rfl, rfl⟩ := Prod.mk.inj (Option.some.inj h)
      exact ⟨logs, hlogs, rfl⟩
  | createDirectories root =>
    obtain ⟨rfl, rfl⟩ := Prod.mk.inj (Option.some.inj h)
    split_ifs
    · exact hok
    · trivial
  | openOutput root =>
    simp only [saveStep] at h
    split_ifs at h
    · obtain ⟨rfl, rfl⟩ := Prod.mk.inj (Option.some.inj h)
      exact hok
    · obtain ⟨rfl, rfl⟩ := Prod.mk.inj (Option.some.inj h)
      trivial
  | write root =>
    obtain ⟨logs, hlogs, rfl⟩ := hok
    simp only [saveStep] at h
    split at h
    · obtain ⟨rfl, rfl⟩ := Prod.mk.inj (Option.some.inj h)
      trivial
    · next dumped hdumped =>
      split at h
      · obtain ⟨rfl, rfl⟩ := Prod.mk.inj (Option.some.inj h)
        exact ⟨_, rfl, logs, dumped, hlogs, hdumped, rfl⟩
      · obtain ⟨rfl, rfl⟩ := Prod.mk.inj (Option.some.inj h)
        trivial
  | move attempt =>
    obtain ⟨text, rfl, htext⟩ := hok
    cases answer with
    | none =>
      obtain ⟨rfl, rfl⟩ := Prod.mk.inj (Option.some.inj h)
      trivial
    | some error =>
      simp only [saveStep] at h
      split_ifs at h
      · obtain ⟨rfl, rfl⟩ := Prod.mk.inj (Option.some.inj h)
        exact ⟨text, rfl, htext⟩
      · obtain ⟨rfl, rfl⟩ := Prod.mk.inj (Option.some.inj h)
        trivial
  | remove =>
    obtain ⟨rfl, rfl⟩ := Prod.mk.inj (Option.some.inj h)
    trivial
  | done => cases h

/-- An initialiser that is done has left no temporary, unless its removal was refused. -/
theorem temporary_of_done (hok : SeedOk call destination seed)
    (hremove : ∀ returns, seed.pc = .remove returns → answer = none)
    (h : seedStep windows call answer destination seed = some (destination', seed'))
    {returned : Bool} (hdone : seed'.pc = .done returned) : seed'.temporary = none := by
  obtain ⟨temporary, pc⟩ := seed
  cases pc with
  | «exists» =>
    simp only [seedStep] at h
    split_ifs at h
    all_goals
      obtain ⟨rfl, rfl⟩ := Prod.mk.inj (Option.some.inj h)
      exact hok
  | checkRegular | createDirectories =>
    obtain ⟨rfl, rfl⟩ := Prod.mk.inj (Option.some.inj h)
    exact hok
  | remove returns =>
    obtain ⟨rfl, rfl⟩ := Prod.mk.inj (Option.some.inj h)
    exact if_pos (hremove returns rfl)
  | openCopy =>
    simp only [seedStep] at h
    split_ifs at h
    all_goals
      obtain ⟨rfl, rfl⟩ := Prod.mk.inj (Option.some.inj h)
      cases hdone
  | copy =>
    simp only [seedStep] at h
    split at h
    all_goals
      obtain ⟨rfl, rfl⟩ := Prod.mk.inj (Option.some.inj h)
      cases hdone
  | permissions =>
    obtain ⟨rfl, rfl⟩ := Prod.mk.inj (Option.some.inj h)
    dsimp only at hdone
    split_ifs at hdone
  | publish =>
    simp only [seedStep, publishCatalog, Option.some.injEq] at h
    split at h
    all_goals
      obtain ⟨rfl, rfl⟩ := Prod.mk.inj h
      cases hdone
  | checkPublished =>
    obtain ⟨rfl, rfl⟩ := Prod.mk.inj (Option.some.inj h)
    cases hdone
  | done => cases h

end Calls

section Runs

variable {calls : Calls} {original : Destination} {s t : SeedState}

def IsBundle (calls : Calls) (destination : Destination) : Prop :=
  ∃ i content, (calls.seeds i).bundle = some content ∧ destination = .regular content

def IsSaved (calls : Calls) (destination : Destination) : Prop :=
  ∃ j text, SavedText calls.library calls.file (calls.items j) text ∧ destination = .regular text

structure CatalogOk (calls : Calls) (original : Destination) (s : SeedState) : Prop where
  destination : s.destination = original ∨ IsBundle calls s.destination ∨
    IsSaved calls s.destination
  seeds : ∀ i, SeedOk (calls.seeds i) s.destination (s.seeds i)
  saves : ∀ j, SaveOk calls.library calls.file (calls.items j) (s.saves j)

theorem catalogOk_initial : CatalogOk calls original (userCatalog calls original).initial :=
  ⟨.inl rfl, fun _ => rfl, fun _ => trivial⟩

theorem catalogOk_step {action : SeedAction} (h : CatalogOk calls original s)
    (hstep : catalogStep calls s action = some t) : CatalogOk calls original t := by
  obtain ⟨hdestination, hseeds, hsaves⟩ := h
  cases action with
  | seed i answer =>
    obtain ⟨⟨destination, seed⟩, hnext, rfl⟩ := Option.map_eq_some_iff.mp hstep
    refine ⟨?_, ?_, hsaves⟩
    · rcases seedStep_destination (hseeds i) hnext with rfl | ⟨-, content, hbundle, rfl⟩
      · exact hdestination
      · exact .inr (.inl ⟨i, content, hbundle, rfl⟩)
    · intro k
      by_cases hk : k = i
      · subst hk
        dsimp only
        rw [Function.update_self]
        exact seedOk_step (hseeds k) hnext
      · dsimp only
        rw [Function.update_of_ne hk]
        exact (hseeds k).mono (isRegular_seedStep (hseeds i) hnext)
  | save j answer =>
    obtain ⟨⟨destination, save⟩, hnext, rfl⟩ := Option.map_eq_some_iff.mp hstep
    refine ⟨?_, fun i => (hseeds i).mono (isRegular_saveStep (hsaves j) hnext), ?_⟩
    · rcases saveStep_destination (hsaves j) hnext with rfl | ⟨text, htext, rfl⟩
      · exact hdestination
      · exact .inr (.inr ⟨j, text, htext, rfl⟩)
    · intro k
      by_cases hk : k = j
      · subst hk
        dsimp only
        rw [Function.update_self]
        exact saveOk_step (hsaves k) hnext
      · dsimp only
        rw [Function.update_of_ne hk]
        exact hsaves k

theorem catalogOk_of_steps {ok : SeedState → SeedAction → Prop}
    (h : (userCatalog calls original).Steps ok (userCatalog calls original).initial s) :
    CatalogOk calls original s :=
  h.invariant catalogOk_initial fun _ _ _ hs _ hstep => catalogOk_step hs hstep

/-- No initialiser touches what stands at the destination. -/
theorem seed_destination_eq (h : CatalogOk calls original s) {i : ℕ} {answer : Answer}
    (hpresent : s.destination ≠ .absent) (hstep : catalogStep calls s (.seed i answer) = some t) :
    t.destination = s.destination := by
  obtain ⟨next, hnext, rfl⟩ := Option.map_eq_some_iff.mp hstep
  rcases seedStep_destination (h.seeds i) hnext with hsame | ⟨habsent, -⟩
  · exact hsame
  · exact absurd habsent hpresent

/-- What stands at the destination stays there until a save replaces it. -/
theorem destination_of_steps (h : CatalogOk calls original s) (hpresent : s.destination ≠ .absent)
    (hrun : (userCatalog calls original).Steps Machine.anyStep s t) :
    t.destination = s.destination ∨ IsSaved calls t.destination := by
  have hkept : t.destination ≠ .absent ∧
      (t.destination = s.destination ∨ IsSaved calls t.destination) := by
    apply hrun.invariant_with ⟨hpresent, .inl rfl⟩ h
      (fun _ _ _ hu _ hstep => catalogOk_step hu hstep)
    rintro u action v hu ⟨hu', hdestination⟩ - hstep
    cases action with
    | seed i answer =>
      rw [seed_destination_eq hu hu' hstep]
      exact ⟨hu', hdestination⟩
    | save j answer =>
      obtain ⟨next, hnext, rfl⟩ := Option.map_eq_some_iff.mp hstep
      rcases saveStep_destination (hu.saves j) hnext with hsame | ⟨text, htext, hnew⟩
      · dsimp only
        rw [hsame]
        exact ⟨hu', hdestination⟩
      · dsimp only
        rw [hnew]
        exact ⟨nofun, .inr ⟨j, text, htext, rfl⟩⟩
  exact hkept.2

/-- The removal of the initialiser's temporary is not refused. -/
def RemovalGranted (i : ℕ) (s : SeedState) (action : SeedAction) : Prop :=
  ∀ answer returns, action = .seed i answer → (s.seeds i).pc = .remove returns → answer = none

theorem temporary_of_steps {i : ℕ} (hrun : (userCatalog calls original).Steps (RemovalGranted i)
    (userCatalog calls original).initial s) {returned : Bool}
    (hdone : (s.seeds i).pc = .done returned) : (s.seeds i).temporary = none := by
  have hgone : ∀ returned, (s.seeds i).pc = .done returned → (s.seeds i).temporary = none := by
    apply hrun.invariant_with (fun _ _ => rfl) catalogOk_initial
      (fun _ _ _ hu _ hstep => catalogOk_step hu hstep)
    intro u action v hu hgone hgranted hstep
    cases action with
    | seed k answer =>
      obtain ⟨⟨destination, seed⟩, hnext, rfl⟩ := Option.map_eq_some_iff.mp hstep
      by_cases hk : i = k
      · subst hk
        dsimp only
        rw [Function.update_self]
        intro returned
        exact temporary_of_done (hu.seeds i) (fun returns => hgranted answer returns rfl) hnext
      · dsimp only
        rw [Function.update_of_ne hk]
        exact hgone
    | save j answer =>
      obtain ⟨next, -, rfl⟩ := Option.map_eq_some_iff.mp hstep
      exact hgone
  exact hgone returned hdone

end Runs

/-- What seeding the user catalog guarantees, whatever is refused and in whatever order the calls
of the initialisers and the saves are made. -/
structure SeedsSafely (calls : Calls) (original : Destination) : Prop where
  /-- A step of an initialiser leaves a destination that exists as it is. -/
  keeps : ∀ s t i answer, (userCatalog calls original).Reachable s → s.destination ≠ .absent →
    catalogStep calls s (.seed i answer) = some t → t.destination = s.destination
  /-- What has once been there is replaced by saves only. -/
  lasts : ∀ s t, (userCatalog calls original).Reachable s → s.destination ≠ .absent →
    (userCatalog calls original).Steps Machine.anyStep s t →
    t.destination = s.destination ∨ IsSaved calls t.destination
  /-- At every moment the destination is as at first, or complete. -/
  complete : ∀ s, (userCatalog calls original).Reachable s →
    s.destination = original ∨ IsBundle calls s.destination ∨ IsSaved calls s.destination
  /-- An initialiser for a package that has returned leaves a regular file. -/
  regular : ∀ s i, (userCatalog calls original).Reachable s → (calls.seeds i).packaged = true →
    (s.seeds i).pc = .done true → s.destination.isRegular = true
  /-- An initialiser has left no temporary, unless its removal was refused. -/
  gone : ∀ s i returned, (userCatalog calls original).Steps (RemovalGranted i)
    (userCatalog calls original).initial s → (s.seeds i).pc = .done returned →
    (s.seeds i).temporary = none

theorem seedsSafely (calls : Calls) (original : Destination) : SeedsSafely calls original where
  keeps _ _ _ _ hs hpresent hstep := seed_destination_eq (catalogOk_of_steps hs) hpresent hstep
  lasts _ _ hs hpresent hrun := destination_of_steps (catalogOk_of_steps hs) hpresent hrun
  complete _ hs := (catalogOk_of_steps hs).destination
  regular s i hs hpackaged hdone := by
    have hok := (catalogOk_of_steps hs).seeds i
    rw [SeedOk, hdone] at hok
    exact hok hpackaged
  gone _ _ _ hrun hdone := temporary_of_steps hrun hdone

/-- One kind of initialiser, and saves without items. -/
def uniformCalls (packaged : Bool) : Calls where
  windows := false
  library := writtenAs (rootJson []) (bytes "[]")
  file := bytes "sample_logs.json"
  seeds _ := { packaged := packaged, bundle := some (bytes "bundle") }
  items _ := []

/-- Outside a package an initialiser returns at once and leaves nothing there; and a refused removal
leaves the temporary behind. -/
theorem seeding_leaves :
    (∃ s, (userCatalog (uniformCalls false) .absent).Reachable s ∧
      (s.seeds 0).pc = .done true ∧ s.destination.isRegular = false) ∧
    ∃ s, (userCatalog (uniformCalls true) .absent).Reachable s ∧
      (s.seeds 0).pc = .done true ∧ (s.seeds 0).temporary = some (bytes "bundle") := by
  constructor
  · have hexec : (userCatalog (uniformCalls false) .absent).exec
        (userCatalog (uniformCalls false) .absent).initial [.seed 0 none] = some _ := rfl
    exact ⟨_, Machine.reachable_of_exec hexec, rfl, rfl⟩
  · have hexec : (userCatalog (uniformCalls true) .absent).exec
        (userCatalog (uniformCalls true) .absent).initial
        [.seed 0 none, .seed 0 none, .seed 0 none, .seed 0 none, .seed 0 none, .seed 0 none,
          .seed 0 (some 13)] = some _ := rfl
    exact ⟨_, Machine.reachable_of_exec hexec, rfl, rfl⟩

end Infrastructure
end LogGenerator
