import Gqe.Lib.Fallible
import Mathlib.Data.List.Nodup
import Mathlib.Data.List.Perm.Basic

/-!
# Named objects

Objects are constructed under names in a segment shared by all of them, and a name in use is
refused. Owners construct a list of objects when they come into being and destroy them by name
when they go. No construction fails if and only if the names of an owner are always new among
those of the owners alive.
-/

namespace Gqe.NamedObjects

open Fallible List Except

/-- An owner is created, or the one at a position among those alive is destroyed. -/
inductive Event (G : Type) where
  | create (owner : G)
  | destroy (position : Nat)
  deriving DecidableEq

/-- The names in use and the owners alive. -/
structure Segment (N G : Type) where
  names : List N := []
  owners : List G := []
  deriving DecidableEq

variable {N G : Type} [DecidableEq N]

/-- A name that is in use is an error, which reports the name. -/
def construct (segment : List N) (name : N) : Except N (List N) :=
  if name ∈ segment then .error name else .ok (name :: segment)

def constructAll (segment names : List N) : Except N (List N) := names.foldlM construct segment

def destroyAll (segment names : List N) : List N := segment.filter (· ∉ names)

variable (names : G → List N)

def Segment.step (s : Segment N G) : Event G → Except N (Segment N G)
  | .create owner => do
    let segment ← constructAll s.names (names owner)
    .ok ⟨segment, s.owners ++ [owner]⟩
  | .destroy position =>
    match s.owners[position]? with
    | none => .ok s
    | some owner => .ok ⟨destroyAll s.names (names owner), s.owners.eraseIdx position⟩

def Segment.run (s : Segment N G) (events : List (Event G)) : Except N (Segment N G) :=
  events.foldlM (Segment.step names) s

/-- The owners alive after some events, by the events alone. -/
def alive (events : List (Event G)) : List G :=
  events.foldl (fun owners event =>
    match event with
    | .create owner => owners ++ [owner]
    | .destroy position => owners.eraseIdx position) []

/-- Every owner that is created has names that no owner alive at that time has. -/
def Separate (events : List (Event G)) : Prop :=
  ∀ before owner, before ++ [Event.create owner] <+: events →
    ∀ other ∈ alive before, (names other).Disjoint (names owner)

variable {names}

lemma alive_concat_destroy (events : List (Event G)) (position : Nat) :
    alive (events ++ [.destroy position]) = (alive events).eraseIdx position := by
  simp [alive]

/-- A list of names is constructed if and only if they are all new. -/
lemma constructAll_eq_ok_iff {segment segment' ns : List N} :
    constructAll segment ns = .ok segment' ↔
      (ns.Nodup ∧ ns.Disjoint segment) ∧ segment' = ns.reverse ++ segment := by
  induction ns generalizing segment with
  | nil => simp [constructAll, pure, Except.pure, eq_comm]
  | cons n ns ih =>
    have hcons : constructAll segment (n :: ns) =
        construct segment n >>= fun segment => constructAll segment ns := rfl
    rw [hcons, construct]
    split_ifs with hn
    · simp [hn]
    · have hdisj : ns.Disjoint (n :: segment) ↔ n ∉ ns ∧ ns.Disjoint segment := by
        rw [disjoint_cons_right]
      simp only [ok_bind, ih, nodup_cons, disjoint_cons_left, reverse_cons, append_assoc]
      tauto

/-- What holds along every run: the names in use are those of the owners alive, each used once. -/
structure Sound (names : G → List N) (events : List (Event G)) (s : Segment N G) : Prop where
  owners : s.owners = alive events
  perm : s.names.Perm (s.owners.flatMap names)
  nodup : s.names.Nodup

variable {events : List (Event G)} {s : Segment N G}

omit [DecidableEq N] in
lemma Sound.mem_names_iff (h : Sound names events s)
    {n : N} : n ∈ s.names ↔ ∃ owner ∈ alive events, n ∈ names owner := by
  rw [h.perm.mem_iff, h.owners, mem_flatMap]

/-- Destroying the names of one owner leaves those of the others. -/
lemma destroyAll_perm {segment : List N} {owners : List G} {position : Nat} {owner : G}
    (hnd : segment.Nodup) (hperm : segment.Perm (owners.flatMap names))
    (howner : owners[position]? = some owner) :
    (destroyAll segment (names owner)).Perm ((owners.eraseIdx position).flatMap names) := by
  obtain ⟨hlt, rfl⟩ := List.getElem?_eq_some_iff.1 howner
  have hsplit : segment.Perm
      (names owners[position] ++ (owners.eraseIdx position).flatMap names) :=
    hperm.trans ((getElem_cons_eraseIdx_perm hlt).symm.flatMap_right names)
  have hdisj := (nodup_append'.1 (hsplit.nodup_iff.1 hnd)).2.2
  have hown : (names owners[position]).filter (· ∉ names owners[position]) = [] := by
    simp
  have hothers : ((owners.eraseIdx position).flatMap names).filter (· ∉ names owners[position]) =
      (owners.eraseIdx position).flatMap names := by
    rw [filter_eq_self]
    intro n hn
    simpa using fun h => hdisj h hn
  have hfilt := hsplit.filter (· ∉ names owners[position])
  rwa [filter_append, hown, hothers] at hfilt

lemma Sound.step {s s' : Segment N G} {event : Event G} (h : Sound names events s)
    (hs' : s.step names event = .ok s') : Sound names (events ++ [event]) s' := by
  cases event with
  | create owner =>
    obtain ⟨segment, hseg, hs'⟩ := bind_eq_ok hs'
    obtain rfl := ok.inj hs'
    obtain ⟨⟨hnd, hdisj⟩, rfl⟩ := constructAll_eq_ok_iff.1 hseg
    refine ⟨by simp [alive, h.owners], ?_, ?_⟩
    · rw [flatMap_append, flatMap_singleton]
      exact ((reverse_perm _).append h.perm).trans perm_append_comm
    · refine (nodup_reverse.2 hnd).append h.nodup ?_
      exact fun n hn => hdisj (mem_reverse.1 hn)
  | destroy position =>
    simp only [Segment.step] at hs'
    split at hs'
    case h_1 hnone =>
      obtain rfl := ok.inj hs'
      refine ⟨?_, h.perm, h.nodup⟩
      rw [alive_concat_destroy, ← h.owners, eraseIdx_of_length_le (getElem?_eq_none_iff.1 hnone)]
    case h_2 owner hsome =>
      obtain rfl := ok.inj hs'
      exact ⟨by rw [alive_concat_destroy, h.owners], destroyAll_perm h.nodup h.perm hsome,
        h.nodup.filter _⟩

theorem Segment.run_sound (h : run names {} events = .ok s) : Sound names events s :=
  foldlM_induction h ⟨rfl, .nil, .nil⟩ fun _ _ _ _ => Sound.step

omit [DecidableEq N] in
lemma separate_nil : Separate names ([] : List (Event G)) := by
  intro before owner hpre
  simp at hpre

omit [DecidableEq N] in
lemma separate_concat {event : Event G} :
    Separate names (events ++ [event]) ↔ Separate names events ∧ ∀ owner, event = .create owner →
        ∀ other ∈ alive events, (names other).Disjoint (names owner) := by
  simp only [Separate, prefix_concat_iff]
  constructor
  · intro h
    refine ⟨fun before owner hpre => h before owner (.inr hpre), ?_⟩
    rintro owner rfl
    exact h events owner (.inl rfl)
  · rintro ⟨hevents, hlast⟩ before owner (heq | hpre)
    · obtain ⟨rfl, hcreate⟩ := append_inj' heq rfl
      exact hlast owner (singleton_inj.1 hcreate).symm
    · exact hevents before owner hpre

/-- An event goes through if and only if it creates no name that is in use. -/
lemma Sound.exists_step_iff (hnames : ∀ owner, (names owner).Nodup)
    (h : Sound names events s) (event : Event G) :
    (∃ s', s.step names event = .ok s') ↔ ∀ owner, event = .create owner →
        ∀ other ∈ alive events, (names other).Disjoint (names owner) := by
  cases event with
  | create owner =>
    constructor
    · rintro ⟨s', hs'⟩ _ ⟨⟩ other hother n hn hn'
      obtain ⟨segment, hseg, -⟩ := bind_eq_ok hs'
      exact (constructAll_eq_ok_iff.1 hseg).1.2 hn' (h.mem_names_iff.2 ⟨other, hother, hn⟩)
    · intro hdisj
      have hnew : (names owner).Disjoint s.names := by
        intro n hn hused
        obtain ⟨other, hother, hn'⟩ := h.mem_names_iff.1 hused
        exact hdisj owner rfl other hother hn' hn
      have hall := constructAll_eq_ok_iff.2 ⟨⟨hnames owner, hnew⟩, rfl⟩
      exact ⟨_, by rw [Segment.step, hall]; rfl⟩
  | destroy position =>
    constructor
    · intro _ owner h
      cases h
    · intro _
      simp only [Segment.step]
      split
      · exact ⟨_, rfl⟩
      · exact ⟨_, rfl⟩

/-- No construction fails along the events if and only if the owners are separate. -/
theorem Segment.exists_run_iff (hnames : ∀ owner, (names owner).Nodup) (events : List (Event G)) :
    (∃ s, run names {} events = .ok s) ↔ Separate names events := by
  induction events using reverseRecOn with
  | nil => exact ⟨fun _ => separate_nil, fun _ => ⟨{}, rfl⟩⟩
  | append_singleton events event ih =>
    rw [separate_concat, ← ih]
    constructor
    · rintro ⟨s', hs'⟩
      obtain ⟨s, hs, hstep⟩ := foldlM_concat_eq_ok.1 hs'
      exact ⟨⟨s, hs⟩, ((run_sound hs).exists_step_iff hnames event).1 ⟨s', hstep⟩⟩
    · rintro ⟨⟨s, hs⟩, hlast⟩
      obtain ⟨s', hs'⟩ := ((run_sound hs).exists_step_iff hnames event).2 hlast
      exact ⟨s', foldlM_concat_eq_ok.2 ⟨s, hs, hs'⟩⟩

/-! ### Numbered names -/

/-- What stands before the first separator, and what follows it, can be read off. -/
lemma append_cons_inj {α : Type} {a : α} {l₁ l₂ r₁ r₂ : List α} (h₁ : a ∉ l₁)
    (h₂ : a ∉ l₂) (h : l₁ ++ a :: r₁ = l₂ ++ a :: r₂) : l₁ = l₂ ∧ r₁ = r₂ := by
  induction l₁ generalizing l₂ with
  | nil =>
    cases l₂ with
    | nil => exact ⟨rfl, (cons.inj h).2⟩
    | cons b l₂ => exact absurd (cons.inj h).1 (ne_of_not_mem_cons h₂)
  | cons b l₁ ih =>
    cases l₂ with
    | nil => exact absurd (cons.inj h).1.symm (ne_of_not_mem_cons h₁)
    | cons c l₂ =>
      obtain ⟨rfl, htail⟩ := cons.inj h
      obtain ⟨rfl, rfl⟩ :=
        ih (not_mem_of_not_mem_cons h₁) (not_mem_of_not_mem_cons h₂) htail
      exact ⟨rfl, rfl⟩

lemma toList_toString (n : Nat) : (toString n).toList = Nat.toDigits 10 n := by
  rw [Nat.toString_eq_ofList_toDigits, String.toList_ofList]

lemma toDigits_inj {m n : Nat} : Nat.toDigits 10 m = Nat.toDigits 10 n ↔ m = n := by
  refine ⟨fun h => ?_, congrArg _⟩
  rw [← Nat.ofDigitChars_ten_toDigits (n := m), h, Nat.ofDigitChars_ten_toDigits]

lemma toString_append_inj {m n : Nat} {s t : String} :
    toString m ++ "_" ++ s = toString n ++ "_" ++ t ↔ m = n ∧ s = t := by
  constructor
  · intro h
    have hlist := congrArg String.toList h
    simp only [String.toList_append, toList_toString, append_assoc] at hlist
    obtain ⟨hdig, hrest⟩ := append_cons_inj Nat.underscore_not_in_toDigits
      Nat.underscore_not_in_toDigits hlist
    exact ⟨toDigits_inj.1 hdig, String.toList_inj.1 hrest⟩
  · rintro ⟨rfl, rfl⟩
    rfl

lemma append_toString_inj {m n : Nat} {s t : String} :
    s ++ "_" ++ toString m = t ++ "_" ++ toString n ↔ s = t ∧ m = n := by
  constructor
  · intro h
    have hlist := congrArg (reverse ∘ String.toList) h
    simp only [Function.comp_apply, String.toList_append, toList_toString, reverse_append] at hlist
    obtain ⟨hdig, hrest⟩ := append_cons_inj
      (mt mem_reverse.1 Nat.underscore_not_in_toDigits)
      (mt mem_reverse.1 Nat.underscore_not_in_toDigits) hlist
    exact ⟨String.toList_inj.1 (reverse_inj.1 hrest), toDigits_inj.1 (reverse_inj.1 hdig)⟩
  · rintro ⟨rfl, rfl⟩
    rfl

end Gqe.NamedObjects
