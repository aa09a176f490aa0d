import JvmClass.Constant.Entry

/-!
# What entries denote

Entries of different pools are compared without the places at which they stand. What is left
of a bootstrap row are its handle and its arguments, so rows agree whatever their numbers are.
-/

namespace JvmClass

def Utf8Entry.bare (e : Utf8Entry) : Utf8Entry := { e with place := default }

def ClassEntry.bare (e : ClassEntry) : ClassEntry := ⟨default, e.name.bare⟩

def NameAndTypeEntry.bare (e : NameAndTypeEntry) : NameAndTypeEntry :=
  ⟨default, e.name.bare, e.type.bare⟩

def MemberEntry.bare (e : MemberEntry) : MemberEntry :=
  ⟨default, e.kind, e.owner.bare, e.nameAndType.bare⟩

def HandleEntry.bare (e : HandleEntry) : HandleEntry := ⟨default, e.kind, e.target.bare⟩

mutual

/-- The constant without places. -/
def Loadable.bare : Loadable → Loadable
  | .integer _ n => .integer default n
  | .float _ bits => .float default bits
  | .long _ n => .long default n
  | .double _ bits => .double default bits
  | .class e => .class e.bare
  | .string _ utf8 => .string default utf8.bare
  | .methodType _ descriptor => .methodType default descriptor.bare
  | .handle e => .handle e.bare
  | .dynamic _ row nt => .dynamic default row.bare nt.bare

/-- The row without its number and other places. -/
def BootstrapRow.bare : BootstrapRow → BootstrapRow
  | .mk _ handle arguments => .mk default handle.bare (Loadable.bareAll arguments)

/-- The constants of a list without places. -/
def Loadable.bareAll : List Loadable → List Loadable
  | [] => []
  | a :: rest => a.bare :: Loadable.bareAll rest

end

def CallSiteEntry.bare (e : CallSiteEntry) : CallSiteEntry :=
  ⟨default, e.bootstrap.bare, e.nameAndType.bare⟩

def ModuleEntry.bare (e : ModuleEntry) : ModuleEntry := ⟨default, e.name.bare⟩

def PackageEntry.bare (e : PackageEntry) : PackageEntry := ⟨default, e.name.bare⟩

/-- The constant without places. -/
def Entry.bare : Entry → Entry
  | .utf8 e => .utf8 e.bare
  | .loadable e => .loadable e.bare
  | .nameAndType e => .nameAndType e.bare
  | .member e => .member e.bare
  | .callSite e => .callSite e.bare
  | .module e => .module e.bare
  | .package e => .package e.bare

/-- Places are taken from a list constant by constant. -/
@[simp] theorem Loadable.bareAll_eq_map (as : List Loadable) : bareAll as = as.map bare := by
  induction as with
  | nil => rfl
  | cons a rest inductionHypothesis => rw [bareAll, inductionHypothesis, List.map_cons]

/-- A row without places has a handle and arguments without places. -/
theorem BootstrapRow.bare_eq (row : BootstrapRow) :
    row.bare = .mk default row.handle.bare (Loadable.bareAll row.arguments) := by
  cases row
  rfl

/-- Two texts denote the same exactly if they are equal. -/
theorem Utf8Entry.bare_eq_iff {a b : Utf8Entry} : a.bare = b.bare ↔ a.text = b.text := by
  simp [bare]

/-- A text keeps its text without its place. -/
@[simp] theorem Utf8Entry.text_bare (e : Utf8Entry) : e.bare.text = e.text := rfl

/-- Two classes denote the same exactly if their names are equal. -/
theorem ClassEntry.bare_eq_iff {a b : ClassEntry} :
    a.bare = b.bare ↔ a.internalName = b.internalName := by
  simp [bare, Utf8Entry.bare, internalName]

/-- A class keeps its name without its places. -/
@[simp] theorem ClassEntry.internalName_bare (e : ClassEntry) :
    e.bare.internalName = e.internalName := rfl

/-- A member keeps its descriptor without its places. -/
@[simp] theorem MemberEntry.type_bare (e : MemberEntry) : e.bare.type = e.type := rfl

/-- A member stays a field, a method or an interface method without its places. -/
@[simp] theorem MemberEntry.kind_bare (e : MemberEntry) : e.bare.kind = e.kind := rfl

/-- A loadable constant keeps its tag without its places. -/
@[simp] theorem Loadable.tag_bare (e : Loadable) : e.bare.tag = e.tag := by
  cases e <;> rfl

/-- A loadable constant keeps its kind without its places. -/
@[simp] theorem Loadable.kind_bare (e : Loadable) : e.bare.kind = e.kind := by
  cases e <;> rfl

/-- Whether a constant can be the value of a field does not depend on places. -/
@[simp] theorem Loadable.isFieldValue_bare (e : Loadable) :
    e.bare.isFieldValue = e.isFieldValue := by
  cases e <;> rfl

/-- A constant keeps its tag without its places. -/
@[simp] theorem Entry.tag_bare (e : Entry) : e.bare.tag = e.tag := by
  cases e with
  | loadable e => exact e.tag_bare
  | _ => rfl

/-! What an entry is taken for depends on what it denotes. -/

/-- Entries that denote the same are taken for what denotes the same. -/
def Entry.Blind {α β : Type} (want : Entry → Option α) (bare : α → β) : Prop :=
  ∀ {e e' : Entry} {a : α}, e'.bare = e.bare → want e = some a →
    ∃ a', want e' = some a' ∧ bare a' = bare a

namespace Entry

/-- Whether an entry is a text, and which, does not depend on places. -/
theorem blind_utf8? : Blind utf8? Utf8Entry.bare := by
  intro e e' a same taken
  cases e <;> cases e' <;> simp_all [utf8?, bare]

/-- Whether an entry is loadable, and what it denotes, does not depend on places. -/
theorem blind_loadable? : Blind loadable? Loadable.bare := by
  intro e e' a same taken
  cases e <;> cases e' <;> simp_all [loadable?, bare]

/-- Whether an entry is a name and type, and which, does not depend on places. -/
theorem blind_nameAndType? : Blind nameAndType? NameAndTypeEntry.bare := by
  intro e e' a same taken
  cases e <;> cases e' <;> simp_all [nameAndType?, bare]

/-- Whether an entry is a member, and which, does not depend on places. -/
theorem blind_member? : Blind member? MemberEntry.bare := by
  intro e e' a same taken
  cases e <;> cases e' <;> simp_all [member?, bare]

/-- Whether an entry is a call site, and which, does not depend on places. -/
theorem blind_callSite? : Blind callSite? CallSiteEntry.bare := by
  intro e e' a same taken
  cases e <;> cases e' <;> simp_all [callSite?, bare]

/-- Whether an entry is a module, and which, does not depend on places. -/
theorem blind_module? : Blind module? ModuleEntry.bare := by
  intro e e' a same taken
  cases e <;> cases e' <;> simp_all [module?, bare]

/-- Whether an entry is a package, and which, does not depend on places. -/
theorem blind_package? : Blind package? PackageEntry.bare := by
  intro e e' a same taken
  cases e <;> cases e' <;> simp_all [package?, bare]

/-- Whether an entry is a class, and which, does not depend on places. -/
theorem blind_class? : Blind class? ClassEntry.bare := by
  intro e e' a same taken
  obtain ⟨b, loaded, sameBare⟩ : ∃ b, e' = .loadable b ∧ b.bare = (Loadable.class a).bare := by
    cases e with
    | loadable b =>
        cases b <;> cases e' <;> simp_all [class?, bare]
    | _ => cases taken
  subst loaded
  cases b <;> simp_all [class?, Loadable.bare]

/-- Whether an entry is a handle, and which, does not depend on places. -/
theorem blind_handle? : Blind handle? HandleEntry.bare := by
  intro e e' a same taken
  obtain ⟨b, loaded, sameBare⟩ : ∃ b, e' = .loadable b ∧ b.bare = (Loadable.handle a).bare := by
    cases e with
    | loadable b =>
        cases b <;> cases e' <;> simp_all [handle?, bare]
    | _ => cases taken
  subst loaded
  cases b <;> simp_all [handle?, Loadable.bare]

/-- Whether an entry is a field, and which, does not depend on places. -/
theorem blind_field? : Blind field? MemberEntry.bare := by
  intro e e' a same taken
  cases e with
  | member m =>
      obtain ⟨kind, rfl⟩ : m.kind = .field ∧ m = a := by
        simpa [field?, Option.ite_none_right_eq_some] using taken
      obtain ⟨m', taken', sameBare⟩ := blind_member? same rfl
      cases e' with
      | member e' =>
          obtain rfl := Option.some.inj taken'
          have kind' : e'.kind = .field := by
            rw [← kind, ← MemberEntry.kind_bare, sameBare, MemberEntry.kind_bare]
          exact ⟨e', by simp [field?, kind'], sameBare⟩
      | _ => cases taken'
  | _ => cases taken

/-- Whether an entry has a tag does not depend on places. -/
theorem blind_tagged? (t : Tag) : Blind (tagged? t) bare := by
  intro e e' a same taken
  obtain ⟨tag, rfl⟩ : e.tag = t ∧ e = a := by
    simpa [tagged?, Option.ite_none_right_eq_some] using taken
  have tag' : e'.tag = t := by rw [← tag, ← tag_bare, same, tag_bare]
  exact ⟨e', by simp [tagged?, tag'], same⟩

end Entry

end JvmClass
