import XTunnel.FirstFree
import XTunnel.Profiles.Preferences

/-! `MainActivity.buildCopyName`: the loop over the names that a copy could have. -/
namespace XTunnel.Profiles.MainActivity

open Loop Loop.Outcome Preferences

variable {p : Preferences} {name : String}

/-- One turn of the loop: `candidate` and `idx`. -/
def copyNameStep (p : Preferences) (baseName : String) (s : String × Nat) :
    Outcome ((String × Nat) ⊕ String) :=
  if p.hasProfileName s.1 none then done (.inl (baseName ++ toString s.2, s.2 + 1))
  else done (.inr s.1)

/-- The loop of `buildCopyName` with a bound on the names that it tests. -/
def buildCopyName (fuel : Nat) (p : Preferences) (baseName : String) : Outcome String :=
  loop (copyNameStep p baseName) fuel (baseName, 2)

/-- The names in the order in which they are tested. -/
def copyName (baseName : String) : Nat → String
  | 0 => baseName
  | k + 1 => baseName ++ toString (k + 2)

theorem toString_toList (n : Nat) : (toString n).toList = Nat.toDigits 10 n := by
  rw [Nat.toString_eq_repr, Nat.toList_repr]

theorem toString_ne_empty (n : Nat) : toString n ≠ "" := by
  intro h
  have hdigits := congrArg String.toList h
  rw [toString_toList] at hdigits
  exact Nat.toDigits_ne_nil hdigits

theorem toString_inj {m n : Nat} (h : toString m = toString n) : m = n := by
  have hdigits := congrArg (fun s => Nat.ofDigitChars 10 s.toList 0) h
  simpa only [toString_toList, Nat.ofDigitChars_ten_toDigits] using hdigits

/-- No two names of the sequence are equal. -/
theorem copyName_injective (baseName : String) : Function.Injective (copyName baseName) := by
  have hbase : ∀ n : Nat, baseName ≠ baseName ++ toString n := by
    intro n h
    have hempty : toString n = "" := (String.append_right_inj baseName).mp
      (h.symm.trans String.append_empty.symm)
    exact toString_ne_empty n hempty
  intro i j h
  cases i with
  | zero =>
    cases j with
    | zero => rfl
    | succ j => exact (hbase _ h).elim
  | succ i =>
    cases j with
    | zero => exact (hbase _ h.symm).elim
    | succ j =>
      have hrepr : toString (i + 2) = toString (j + 2) := (String.append_right_inj baseName).mp h
      have hidx : i + 2 = j + 2 := toString_inj hrepr
      omega

/-- The effective names of the registered profiles. -/
def profileNames (p : Preferences) : List String := p.getProfileIds.elems.map p.getProfileName

theorem hasProfileName_iff : p.hasProfileName name none = true ↔ name ∈ profileNames p := by
  rw [hasProfileName, profileNames, List.any_eq_true, List.mem_map]
  constructor
  · rintro ⟨id, hid, heq⟩
    rw [Bool.and_eq_true] at heq
    exact ⟨id, hid, (beq_iff_eq.mp heq.2).symm⟩
  · rintro ⟨id, hid, rfl⟩
    exact ⟨id, hid, by simp⟩

/-- The loop tests at most one more name than there are profiles, and the name it leaves with is
nobody's. -/
theorem buildCopyName_fresh (p : Preferences) (baseName : String) :
    (buildCopyName (p.getProfileIds.elems.length + 1) p baseName).Returns fun name =>
      ∀ id ∈ p.getProfileIds.elems, p.getProfileName id ≠ name := by
  have hsearch : (buildCopyName ((profileNames p).length + 1) p baseName).Returns fun name =>
      ∃ a, a ∉ profileNames p ∧ name = a :=
    loop_finds_free (copyName_injective baseName) (profileNames p)
      (fun k => (copyName baseName k, k + 2)) id
      (fun k hk => if_pos (hasProfileName_iff.mpr hk))
      (fun k hk => if_neg fun h => hk (hasProfileName_iff.mp h))
  rw [profileNames, List.length_map] at hsearch
  refine hsearch.mono ?_
  rintro name ⟨_, hfree, rfl⟩ x hx heq
  exact hfree (List.mem_map.mpr ⟨x, hx, heq⟩)

end XTunnel.Profiles.MainActivity
