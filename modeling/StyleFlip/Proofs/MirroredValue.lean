import StyleFlip.Proofs.MirroredWords

/-!
# Values whose leaves flip back

Keywords and urls are replaced leaf by leaf. Such replacements commute when they are about different
kinds of leaves, and two of the same kind are one, leaf by leaf.
-/

namespace StyleFlip

namespace Component

/-- Components hold lists of components, so statements about values are proved for lists. -/
@[elab_as_elim]
theorem listInduction {motive : List Component → Prop} (nil : motive [])
    (leaf : ∀ kind text rest, motive rest → motive (.leaf kind text :: rest))
    (function : ∀ name args closed rest, motive args → motive rest →
      motive (.function name args closed :: rest)) :
    ∀ components : List Component, motive components
  | [] => nil
  | .leaf kind text :: rest => leaf kind text rest (listInduction nil leaf function rest)
  | .function name args closed :: rest =>
      function name args closed rest (listInduction nil leaf function args)
        (listInduction nil leaf function rest)

mutual

/-- A condition on the leaves of a component, inside those functions that `enter` admits. -/
def allLeaves (enter : Text → Bool) (p : LeafKind → Text → Bool) : Component → Bool
  | .leaf kind text => p kind text
  | .function name args _ => !enter name || allLeavesAll enter p args

def allLeavesAll (enter : Text → Bool) (p : LeafKind → Text → Bool) : List Component → Bool
  | [] => true
  | c :: rest => allLeaves enter p c && allLeavesAll enter p rest

end

theorem mapLeavesAll_eq_map (enter : Text → Bool) (f : LeafKind → Text → Text)
    (components : List Component) :
    mapLeavesAll enter f components = components.map (mapLeaves enter f) := by
  induction components with
  | nil => rfl
  | cons c rest ih => rw [mapLeavesAll, ih, List.map_cons]

theorem mapLeavesAll_comm (enter enter' : Text → Bool) {f g : LeafKind → Text → Text}
    (hfg : ∀ kind text, f kind (g kind text) = g kind (f kind text)) (components : List Component) :
    mapLeavesAll enter f (mapLeavesAll enter' g components) =
      mapLeavesAll enter' g (mapLeavesAll enter f components) := by
  induction components using listInduction with
  | nil => rfl
  | leaf kind text rest ih => simp [mapLeavesAll, mapLeaves, hfg, ih]
  | function name args closed rest ihargs ihrest =>
      cases henter : enter name <;> cases henter' : enter' name <;>
        simp [mapLeavesAll, mapLeaves, henter, henter', ihargs, ihrest]

theorem mapLeavesAll_mapLeavesAll (enter : Text → Bool) (f g : LeafKind → Text → Text)
    (components : List Component) :
    mapLeavesAll enter f (mapLeavesAll enter g components) =
      mapLeavesAll enter (fun kind text => f kind (g kind text)) components := by
  induction components using listInduction with
  | nil => rfl
  | leaf kind text rest ih => simp [mapLeavesAll, mapLeaves, ih]
  | function name args closed rest ihargs ihrest =>
      cases henter : enter name <;> simp [mapLeavesAll, mapLeaves, henter, ihargs, ihrest]

theorem mapLeavesAll_eq_self {enter : Text → Bool} {f : LeafKind → Text → Text}
    {p : LeafKind → Text → Bool} (hp : ∀ kind text, p kind text = true → f kind text = text)
    {components : List Component} (h : allLeavesAll enter p components = true) :
    mapLeavesAll enter f components = components := by
  induction components using listInduction with
  | nil => rfl
  | leaf kind text rest ih =>
      rw [allLeavesAll, Bool.and_eq_true] at h
      simp [mapLeavesAll, mapLeaves, hp kind text h.1, ih h.2]
  | function name args closed rest ihargs ihrest =>
      rw [allLeavesAll, Bool.and_eq_true, allLeaves] at h
      cases henter : enter name with
      | false => simp [mapLeavesAll, mapLeaves, henter, ihrest h.2]
      | true =>
          have hargs : allLeavesAll enter p args = true := by simpa [henter] using h.1
          simp [mapLeavesAll, mapLeaves, henter, ihargs hargs, ihrest h.2]

end Component

namespace Value

/-- Replaces the keywords of a value. The arguments of `var` are names and not keywords. -/
def mapKeywords (f : Text → Text) (value : Value) : Value :=
  Component.mapLeavesAll (fun name => !Text.sameIgnoringCase name "var".toList)
    (fun kind text => if kind = .ident then f text else text) value

/-- Replaces the urls of a value. -/
def mapUrls (f : Text → Text) (value : Value) : Value :=
  Component.mapLeavesAll (fun _ => true) (fun kind text => if kind = .url then f text else text) value

theorem mapKeywords_mapKeywords (f g : Text → Text) (value : Value) :
    mapKeywords f (mapKeywords g value) = mapKeywords (fun text => f (g text)) value := by
  rw [mapKeywords, mapKeywords, Component.mapLeavesAll_mapLeavesAll, mapKeywords]
  congr 1
  funext kind text
  split <;> rfl

theorem mapUrls_mapUrls (f g : Text → Text) (value : Value) :
    mapUrls f (mapUrls g value) = mapUrls (fun text => f (g text)) value := by
  rw [mapUrls, mapUrls, Component.mapLeavesAll_mapLeavesAll, mapUrls]
  congr 1
  funext kind text
  split <;> rfl

theorem mapKeywords_mapUrls (f g : Text → Text) (value : Value) :
    mapKeywords f (mapUrls g value) = mapUrls g (mapKeywords f value) := by
  refine Component.mapLeavesAll_comm _ _ (fun kind text => ?_) value
  cases kind <;> rfl

/-- The value with the keywords that flipping it flips in their regular letter case. -/
def settleKeywords (value : Value) : Value := mapKeywords sideKeywords.settle value

def settleUrls (value : Value) : Value := mapUrls settleUrl value

theorem flipKeywords_flipKeywords (value : Value) :
    flipKeywords (flipKeywords value) = settleKeywords value := by
  refine (mapKeywords_mapKeywords sideKeywords.flip sideKeywords.flip value).trans ?_
  rw [funext (Pairs.flip_flip Pairs.isSound_sideKeywords), settleKeywords]

theorem settleKeywords_flipKeywords (value : Value) :
    settleKeywords (flipKeywords value) = flipKeywords value := by
  refine (mapKeywords_mapKeywords sideKeywords.settle sideKeywords.flip value).trans ?_
  rw [funext (Pairs.settle_flip Pairs.isSound_sideKeywords)]
  rfl

theorem flipUrls_flipUrls (value : Value) : flipUrls (flipUrls value) = settleUrls value := by
  refine (mapUrls_mapUrls flipUrl flipUrl value).trans ?_
  rw [funext flipUrl_flipUrl, settleUrls]

theorem settleUrls_flipUrls (value : Value) : settleUrls (flipUrls value) = flipUrls value := by
  refine (mapUrls_mapUrls settleUrl flipUrl value).trans ?_
  rw [funext settleUrl_flipUrl]
  rfl

/-- Every keyword that flipping the value flips has a letter case that allows to flip it back. -/
def admitsKeywords (value : Value) : Bool :=
  Component.allLeavesAll (fun name => !Text.sameIgnoringCase name "var".toList)
    (fun kind text => kind != .ident || sideKeywords.admits text) value

def admitsUrls (value : Value) : Bool :=
  Component.allLeavesAll (fun _ => true) (fun kind text => kind != .url || admitsUrl text) value

theorem settleKeywords_of_admits {value : Value} (h : admitsKeywords value = true) :
    settleKeywords value = value := by
  refine Component.mapLeavesAll_eq_self (fun kind text hp => ?_) h
  split
  · rename_i hkind
    exact Pairs.settle_of_admits (by simpa [hkind] using hp)
  · rfl

theorem settleUrls_of_admits {value : Value} (h : admitsUrls value = true) :
    settleUrls value = value := by
  refine Component.mapLeavesAll_eq_self (fun kind text hp => ?_) h
  split
  · rename_i hkind
    exact settleUrl_of_admits (by simpa [hkind] using hp)
  · rfl

/-- Flipping the keywords respells the tokens of a value. -/
theorem respelled_keyword (kind : LeafKind) (text : Text) :
    Respelled text (if kind = .ident then sideKeywords.flip text else text) := by
  split
  · exact Pairs.respelled_flip Pairs.isSound_sideKeywords text
  · exact .refl text

theorem respelled_url (kind : LeafKind) (text : Text) :
    Respelled text (if kind = .url then flipUrl text else text) := by
  split
  · exact respelled_flipUrl text
  · exact .refl text

end Value

end StyleFlip
