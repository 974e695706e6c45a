/-
# Chains of subranges under any requests

Types are requested one after the other, and each request adds a type, sets a member scope
or is refused. As long as no array and no subrange is described by hand, all references lead
to earlier types and every subrange is as large as the type that it is a subrange of. So all
types along a chain of subranges are held in one way and are of one size, and later requests
change nothing about a type but its member scope.
-/

import ScopeMachine.Proofs.Types.References

namespace ScopeMachine.TypeStore

/-! ## Requests -/

/-- What can be requested of the types. -/
inductive Request where
  | array (element : TypeId) (count : Nat)
  | enumeration (name : String) (constants : List SymbolRef)
  | subrange (base : TypeId) (min max : Int32)
  | record (name : String) (size : Nat) (fields : Option ScopeIndex)
  | describe (info : TypeInfo)
  | memberScope (id : TypeId) (scope : ScopeIndex)

namespace Request

/-- Do what is requested. The number of a new type is left out. -/
def perform (types : TypeStore) : Request → Except TypeRefusal TypeStore
  | .array element count => (types.array element count).map Prod.snd
  | .enumeration name constants => .ok (types.enumeration name constants).2
  | .subrange base min max => (types.subrange base min max).map Prod.snd
  | .record name size fields => .ok (types.record name size fields).2
  | .describe info => .ok (types.allocate info).2
  | .memberScope id scope => types.setMemberScope id scope

/-- The types after a request. One that is refused changes nothing. -/
def after (types : TypeStore) (request : Request) : TypeStore :=
  match request.perform types with
  | .ok later => later
  | .error _ => types

/-- A type that is described by hand refers to no other type. -/
def IsPlain : Request → Prop
  | .describe info => info.shape.IsPlain
  | _ => True

end Request

/-- The types after requests one after the other. -/
def serve (types : TypeStore) (requests : List Request) : TypeStore :=
  requests.foldl Request.after types

/-- What every request keeps is kept by any number of them. -/
theorem serve_of_after {holds : TypeStore → Prop} {requests : List Request}
    (hafter : ∀ types, ∀ request ∈ requests, holds types → holds (request.after types))
    {types : TypeStore} (hholds : holds types) : holds (serve types requests) := by
  induction requests generalizing types with
  | nil => exact hholds
  | cons request rest ih =>
      exact ih (fun types other hother => hafter types other (List.mem_cons_of_mem _ hother))
        (hafter types request List.mem_cons_self hholds)

/-! ## What a request does -/

/-- Every subrange is as large as the type that it is a subrange of. -/
def Measured (types : TypeStore) : Prop :=
  ∀ id inner min max, types.shape id = .ok (.subrange inner min max) →
    types.sizeOf id = types.sizeOf inner

/-- The description refers to types that are there, and gives a subrange their size. -/
structure Suits (types : TypeStore) (info : TypeInfo) : Prop where
  below : info.shape.RefersBelow types.size
  measured : ∀ inner min max, info.shape = .subrange inner min max →
    types.sizeOf inner = .ok info.size

/-- What requests keep of the types, as long as plain types only are described by hand. -/
structure WellMade (types : TypeStore) : Prop where
  reachable : types.Reachable
  measured : types.Measured

/-- What a request can do: nothing, add a description, or set a member scope. -/
inductive Changes (types : TypeStore) (request : Request) : TypeStore → Prop
  | refused : Changes types request types
  | added {info : TypeInfo} (hsuits : request.IsPlain → types.Suits info) :
      Changes types request (types.allocate info).2
  | memberScope {later : TypeStore} {id : TypeId} {scope : ScopeIndex}
      (hmade : types.setMemberScope id scope = .ok later) : Changes types request later

variable {types later : TypeStore} {id inner root : TypeId} {info : TypeInfo}
  {requests : List Request}

theorem Suits.of_isPlain (hplain : info.shape.IsPlain) : types.Suits info where
  below := hplain.refersBelow types.size
  measured := fun inner min max hform => by
    rw [hform] at hplain
    exact absurd hplain not_false

theorem exists_of_map_eq_ok {made : Except TypeRefusal (TypeId × TypeStore)}
    (hdone : made.map Prod.snd = .ok later) : ∃ id, made = .ok (id, later) := by
  cases made with
  | error refusal => cases hdone
  | ok pair =>
      cases hdone
      exact ⟨pair.1, rfl⟩

/-- A request that goes through adds a description or sets a member scope. -/
theorem Request.changes_of_perform {request : Request}
    (hdone : request.perform types = .ok later) : Changes types request later := by
  cases request with
  | array element count =>
      obtain ⟨id, hmade⟩ := exists_of_map_eq_ok hdone
      obtain ⟨info, hfind, -, rfl⟩ := array_eq_ok hmade
      exact .added fun _ => ⟨find_isOk_iff.mp ⟨info, hfind⟩, nofun⟩
  | subrange base min max =>
      obtain ⟨id, hmade⟩ := exists_of_map_eq_ok hdone
      obtain ⟨info, hfind, -, rfl⟩ := subrange_eq_ok hmade
      refine .added fun _ => ⟨find_isOk_iff.mp ⟨info, hfind⟩, fun inner min max hform => ?_⟩
      cases hform
      change types.sizeOf base = .ok info.size
      exact sizeOf_of_find hfind
  | enumeration name constants =>
      cases hdone
      exact .added fun _ => .of_isPlain trivial
  | record name size fields =>
      cases hdone
      exact .added fun _ => .of_isPlain trivial
  | describe info =>
      cases hdone
      exact .added .of_isPlain
  | memberScope id scope => exact .memberScope hdone

theorem Request.changes (types : TypeStore) (request : Request) :
    Changes types request (request.after types) := by
  unfold after
  cases hdone : request.perform types with
  | error refusal => exact .refused
  | ok later => exact changes_of_perform hdone

/-! ## What requests keep -/

theorem keeps_after (types : TypeStore) (request : Request) :
    types.Keeps (request.after types) := by
  have hchanges := request.changes types
  generalize request.after types = later at hchanges ⊢
  cases hchanges with
  | refused => exact .refl types
  | added hsuits => exact .allocate types _
  | memberScope hmade => exact .setMemberScope hmade

theorem keeps_serve (types : TypeStore) (requests : List Request) :
    types.Keeps (serve types requests) :=
  serve_of_after (fun _ request _ hkeeps => hkeeps.trans (keeps_after _ request)) (.refl types)

/-- What was known of the size of a subrange that was there stays true. -/
theorem Measured.sizeOf_eq (hmeasured : types.Measured) (hgrounded : types.Grounded)
    (hkeeps : types.Keeps later) (hid : id.index < types.size) {min max : Int32}
    (hshape : later.shape id = .ok (.subrange inner min max)) :
    later.sizeOf id = later.sizeOf inner := by
  rw [hkeeps.shape_eq hid] at hshape
  have hinner : inner.index < id.index := hgrounded.below hshape
  rw [hkeeps.sizeOf_eq hid, hkeeps.sizeOf_eq (Nat.lt_trans hinner hid)]
  exact hmeasured id inner min max hshape

theorem Measured.allocate (hmeasured : types.Measured) (hgrounded : types.Grounded)
    (hsuits : types.Suits info) : (types.allocate info).2.Measured := by
  intro id inner min max hshape
  have hkeeps := Keeps.allocate types info
  obtain ⟨found, hfound, hform⟩ := exists_find_of_shape hshape
  rcases find_of_allocate hfound with ⟨-, rfl⟩ | hold
  · have hinner : inner.index < types.size := by
      have hbelow := hsuits.below
      rwa [hform] at hbelow
    rw [sizeOf_of_find hfound, hkeeps.sizeOf_eq hinner, hsuits.measured inner min max hform]
  · exact hmeasured.sizeOf_eq hgrounded hkeeps (find_isOk_iff.mp ⟨found, hold⟩) hshape

theorem Measured.setMemberScope (hmeasured : types.Measured) (hgrounded : types.Grounded)
    {scope : ScopeIndex} (hmade : types.setMemberScope id scope = .ok later) :
    later.Measured := by
  intro other inner min max hshape
  obtain ⟨found, hfound, -⟩ := exists_find_of_shape hshape
  have hother := find_isOk_iff.mp ⟨found, hfound⟩
  rw [size_setMemberScope hmade] at hother
  exact hmeasured.sizeOf_eq hgrounded (.setMemberScope hmade) hother hshape

theorem measured_predefined : TypeStore.predefined.Measured := by
  intro id inner min max hshape
  obtain ⟨info, hfind, hform⟩ := exists_find_of_shape hshape
  have hplain := (plain_of_find_predefined hfind).1
  rw [hform] at hplain
  exact absurd hplain not_false

/-- Requests that describe nothing but plain types by hand keep the types well made. -/
theorem WellMade.after {request : Request} (hplain : request.IsPlain) (hmade : types.WellMade) :
    (request.after types).WellMade := by
  have hgrounded := hmade.reachable.grounded
  have hchanges := request.changes types
  generalize request.after types = later at hchanges ⊢
  cases hchanges with
  | refused => exact hmade
  | added hsuits =>
      exact ⟨hmade.reachable.allocate _ (hsuits hplain).below,
        hmade.measured.allocate hgrounded (hsuits hplain)⟩
  | memberScope hset =>
      exact ⟨hmade.reachable.memberScope hset, hmade.measured.setMemberScope hgrounded hset⟩

theorem wellMade_serve (hplain : ∀ request ∈ requests, request.IsPlain) :
    (serve .predefined requests).WellMade :=
  serve_of_after (fun _ request hrequest hmade => hmade.after (hplain request hrequest))
    ⟨.predefined, measured_predefined⟩

/-! ## Types along a chain -/

theorem RangesOver.same_code (hranges : types.RangesOver root id) :
    types.code id = types.code root := by
  rw [code, code, hranges.same_base]

theorem RangesOver.same_size (hranges : types.RangesOver root id) (hmeasured : types.Measured) :
    types.sizeOf id = types.sizeOf root := by
  induction hranges with
  | refl => rfl
  | subrange hshape hinner ih => rw [hmeasured _ _ _ _ hshape, ih]

/-- A subrange can be made of every type that is there, and is held like it. -/
theorem WellMade.exists_subrange (hmade : types.WellMade) (hid : id.index < types.size)
    (min max : Int32) :
    ∃ later, types.subrange id min max = .ok (⟨types.size⟩, later) ∧
      later.code ⟨types.size⟩ = types.code id ∧
      later.sizeOf ⟨types.size⟩ = types.sizeOf id := by
  obtain ⟨later, hadded⟩ : ∃ later, types.subrange id min max = .ok (⟨types.size⟩, later) := by
    obtain ⟨info, hinfo⟩ := find_isOk_iff.mpr hid
    exact ⟨_, by rw [subrange, hinfo]; rfl⟩
  have hafter : (Request.subrange id min max).after types = later := by
    simp only [Request.after, Request.perform, hadded, Except.map]
  have hlater : later.WellMade := hafter ▸ hmade.after trivial
  have hkeeps : types.Keeps later := hafter ▸ keeps_after types _
  have hshape : later.shape ⟨types.size⟩ = .ok (.subrange id min max) := by
    obtain ⟨info, -, -, rfl⟩ := subrange_eq_ok hadded
    exact shape_allocate_self
  have hranges : later.RangesOver id ⟨types.size⟩ := .subrange hshape .refl
  refine ⟨later, hadded, ?_, ?_⟩
  · obtain ⟨code, hcode⟩ := hmade.reachable.grounded.exists_code hid
    rw [hranges.same_code, hkeeps.code_eq (hcode ▸ settled_ok)]
  · rw [hranges.same_size hlater.measured, hkeeps.sizeOf_eq hid]

/-- In types that were requested, with no array and no subrange described by hand, every
reference leads to an earlier type, and so references do not go on for ever. The base of a
type is an earlier type or the type itself. There its chain of subranges ends, and only
there. The name of a type is what its forms say to the end, and nothing else. All types
along a chain are held in one way and are of one size, and a subrange of any type can be
made and joins its chain. Later requests, whatever they describe by hand, change the base,
the code and the name of no type that is there. -/
theorem references_lead_down (hplain : ∀ request ∈ requests, request.IsPlain)
    (htypes : serve .predefined requests = types) :
    (∀ inner id, types.Refers inner id → inner.index < id.index) ∧
    WellFounded types.Refers ∧
    (∀ id, id.index < types.size →
      (∃ root, types.base id = .ok root ∧ root.index ≤ id.index ∧
        types.base root = .ok root) ∧
      (∀ root, types.base id = .ok root ↔ types.EndsAt root id) ∧
      (∃ code, types.code id = .ok code) ∧
      (∃ name, types.displayName id = .ok name) ∧
      ∀ name, types.displayName id = .ok name ↔ types.Called id name) ∧
    (∀ root id, types.RangesOver root id →
      types.code id = types.code root ∧ types.sizeOf id = types.sizeOf root) ∧
    (∀ id, id.index < types.size → ∀ min max, ∃ later,
      types.subrange id min max = .ok (⟨types.size⟩, later) ∧
        later.code ⟨types.size⟩ = types.code id ∧
        later.sizeOf ⟨types.size⟩ = types.sizeOf id) ∧
    ∀ more id, id.index < types.size →
      (serve types more).base id = types.base id ∧
      (serve types more).code id = types.code id ∧
      (serve types more).displayName id = types.displayName id := by
  have hmade : types.WellMade := htypes ▸ wellMade_serve hplain
  have hgrounded := hmade.reachable.grounded
  refine ⟨fun inner id => hgrounded.lt_of_refers, hgrounded.wellFounded_refers,
    fun id hid => ⟨?_, fun root => base_eq_iff, hgrounded.exists_code hid,
      hgrounded.exists_displayName hid, fun name => displayName_eq_iff⟩,
    fun root id hranges => ⟨hranges.same_code, hranges.same_size hmade.measured⟩,
    fun id hid => hmade.exists_subrange hid, fun more id hid => ?_⟩
  · obtain ⟨root, hbase, -⟩ := hgrounded.exists_base hid
    have hends := endsAt_of_base hbase
    exact ⟨root, hbase, hgrounded.le_of_rangesOver hends.ranges, hends.base_self⟩
  · have hkeeps := keeps_serve types more
    obtain ⟨root, hbase, -⟩ := hgrounded.exists_base hid
    obtain ⟨code, hcode⟩ := hgrounded.exists_code hid
    obtain ⟨name, hname⟩ := hgrounded.exists_displayName hid
    exact ⟨hkeeps.base_eq (hbase ▸ settled_ok), hkeeps.code_eq (hcode ▸ settled_ok),
      hkeeps.displayName_eq (hname ▸ settled_ok)⟩

/-- An enumeration, a subrange of a subrange of it, and an array of these. -/
def shades : List Request :=
  [.enumeration "color" [⟨⟨0⟩, ⟨0⟩⟩, ⟨⟨0⟩, ⟨1⟩⟩], .subrange ⟨8⟩ 0 1, .subrange ⟨9⟩ 1 1,
    .subrange ⟨99⟩ 0 0, .memberScope ⟨9⟩ ⟨2⟩, .array ⟨10⟩ 3]

theorem references_lead_down_shades :
    (∀ request ∈ shades, request.IsPlain) ∧
      (serve .predefined shades).base ⟨10⟩ = .ok ⟨8⟩ ∧
      (serve .predefined shades).code ⟨10⟩ = (serve .predefined shades).code ⟨8⟩ ∧
      (serve .predefined shades).displayName ⟨11⟩ = .ok "color(0..1)(1..1)[3]" ∧
      ∀ more, (serve (serve .predefined shades) more).displayName ⟨11⟩ =
        .ok "color(0..1)(1..1)[3]" := by
  have hplain : ∀ request ∈ shades, request.IsPlain := by
    simp [shades, Request.IsPlain]
  obtain ⟨-, -, hanswers, hchains, -, hlater⟩ := references_lead_down hplain rfl
  have hranges : (serve .predefined shades).RangesOver ⟨8⟩ ⟨10⟩ :=
    .subrange rfl (.subrange rfl .refl)
  have hcolor : (serve .predefined shades).Called ⟨8⟩ "color" := .declared rfl rfl
  have hshade : (serve .predefined shades).Called ⟨9⟩ _ := .subrange rfl rfl rfl hcolor
  have hdeep : (serve .predefined shades).Called ⟨10⟩ _ := .subrange rfl rfl rfl hshade
  have hcalled : (serve .predefined shades).Called ⟨11⟩ _ := .array rfl rfl rfl hdeep
  obtain ⟨-, hbase, -⟩ := hanswers ⟨10⟩ (by decide)
  obtain ⟨-, -, -, -, hname⟩ := hanswers ⟨11⟩ (by decide)
  have hshown : (serve .predefined shades).displayName ⟨11⟩ = .ok "color(0..1)(1..1)[3]" :=
    ((hname _).mpr hcalled).trans (congrArg Except.ok (by decide +kernel))
  refine ⟨hplain, (hbase _).mpr ⟨hranges, _, rfl, nofun⟩, (hchains _ _ hranges).1, hshown,
    fun more => ?_⟩
  rw [(hlater more ⟨11⟩ (by decide)).2.2]
  exact hshown

end ScopeMachine.TypeStore
