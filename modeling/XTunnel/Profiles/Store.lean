import Mathlib.Data.List.Nodup
import Mathlib.Data.List.Perm.Basic
import Mathlib.Logic.Function.Basic

/-! The flat SharedPreferences store under the concatenated keys of Preferences.java. -/
namespace XTunnel.Profiles

/-- `String.trim` of Java: characters up to the space are cut at both ends. -/
def trim (s : String) : String :=
  String.ofList
    (((s.toList.dropWhile (·.toNat ≤ 32)).reverse.dropWhile (·.toNat ≤ 32)).reverse)

def isBlank (s : String) : Bool := (trim s).isEmpty

/-- A Java string set, in its iteration order. -/
structure StringSet where
  elems : List String
  nodup : elems.Nodup

/-- The iteration order that a `HashSet` gives to its elements: some rearrangement of them. -/
structure HashOrder where
  order : List String → List String
  perm : ∀ l, (order l).Perm l

/-- Sets that iterate from the newest element to the oldest. -/
def newestFirst : HashOrder := ⟨id, fun _ => .refl _⟩

namespace StringSet

def empty : StringSet := ⟨[], List.nodup_nil⟩

def contains (s : StringSet) (id : String) : Bool := s.elems.contains id

/-- `new HashSet<>(s)` with `id` added. -/
def add (hash : HashOrder) (s : StringSet) (id : String) : StringSet :=
  ⟨hash.order (s.elems.insert id), (hash.perm _).nodup_iff.mpr (s.nodup.insert)⟩

/-- `new HashSet<>(s)` with `id` removed. -/
def remove (hash : HashOrder) (s : StringSet) (id : String) : StringSet :=
  ⟨hash.order (s.elems.erase id), (hash.perm _).nodup_iff.mpr (s.nodup.erase id)⟩

@[simp] theorem mem_add {hash : HashOrder} {s : StringSet} {id x : String} :
    x ∈ (s.add hash id).elems ↔ x = id ∨ x ∈ s.elems := by
  rw [add, (hash.perm _).mem_iff, List.mem_insert_iff]

@[simp] theorem mem_remove {hash : HashOrder} {s : StringSet} {id x : String} :
    x ∈ (s.remove hash id).elems ↔ x ≠ id ∧ x ∈ s.elems := by
  rw [remove, (hash.perm _).mem_iff, s.nodup.mem_erase_iff]

end StringSet

/-- A stored value. A JSON array text is represented by the strings that are read from it. -/
inductive Value
  | string (v : String)
  | boolean (v : Bool)
  | int (v : Int)
  | stringSet (v : StringSet)
  | jsonArray (v : List String)

/-- The key constants to which `_` and a profile id are appended. -/
inductive Field
  | WSS_ADDR | ECH_DNS | ECH_DOMAIN | PREF_IP | IPS_PREF | UDP_BLOCK_PORTS | INSECURE | TOKEN
  | WS_CONN | DISABLE_ECH | PROFILE_NAME | PROFILE_IS_SUB | PROFILE_LATENCY
deriving DecidableEq, Repr

def Field.text : Field → String
  | .WSS_ADDR => "WssAddr"
  | .ECH_DNS => "EchDns"
  | .ECH_DOMAIN => "EchDomain"
  | .PREF_IP => "PrefIp"
  | .IPS_PREF => "IpsPref"
  | .UDP_BLOCK_PORTS => "UdpBlockPorts"
  | .INSECURE => "Insecure"
  | .TOKEN => "Token"
  | .WS_CONN => "WsConn"
  | .DISABLE_ECH => "DisableEch"
  | .PROFILE_NAME => "ProfileName"
  | .PROFILE_IS_SUB => "ProfileIsSub"
  | .PROFILE_LATENCY => "ProfileLatency"

/-- The keys of the store that belong to no profile. -/
inductive Global
  | CURRENT_PROFILE_ID | PROFILES | PROFILE_ORDER | GLOBAL_WS_CONN
deriving DecidableEq, Repr

def Global.text : Global → String
  | .CURRENT_PROFILE_ID => "CurrentProfileId"
  | .PROFILES => "Profiles"
  | .PROFILE_ORDER => "ProfileOrder"
  | .GLOBAL_WS_CONN => "GlobalWsConn"

inductive Key
  | global (g : Global)
  | profile (f : Field) (id : String)
deriving DecidableEq, Repr

/-- The key text under which the flat map files an entry. -/
def Key.text : Key → String
  | .global g => g.text
  | .profile f id => f.text ++ "_" ++ id

/-- The entry belongs to the profile `id`. -/
def Key.ownedBy (id : String) : Key → Bool
  | .global _ => false
  | .profile _ x => x == id

theorem Field.underscore_notMem (f : Field) : '_' ∉ f.text.toList := by
  cases f <;> decide

theorem Field.text_injective {f g : Field} (h : f.text = g.text) : f = g := by
  cases f <;> cases g <;> first | rfl | exact absurd h (by decide)

theorem Global.underscore_notMem (g : Global) : '_' ∉ g.text.toList := by
  cases g <;> decide

theorem Global.text_injective {f g : Global} (h : f.text = g.text) : f = g := by
  cases f <;> cases g <;> first | rfl | exact absurd h (by decide)

/-- The text before the first underscore and the text after it are determined. -/
theorem append_underscore_inj {a b x y : List Char} (ha : '_' ∉ a) (hb : '_' ∉ b)
    (h : a ++ '_' :: x = b ++ '_' :: y) : a = b ∧ x = y := by
  induction a generalizing b with
  | nil =>
    cases b with
    | nil => exact ⟨rfl, (List.cons.inj h).2⟩
    | cons d b => exact (hb (by rw [(List.cons.inj h).1]; exact List.mem_cons_self)).elim
  | cons c a ih =>
    cases b with
    | nil => exact (ha (by rw [(List.cons.inj h).1]; exact List.mem_cons_self)).elim
    | cons d b =>
      simp only [List.cons_append, List.cons.injEq, List.mem_cons, not_or] at h ha hb
      obtain ⟨rfl, hx⟩ := ih ha.2 hb.2 h.2
      exact ⟨by rw [h.1], hx⟩

/-- No two keys collide in the flat map, whatever the profile ids contain. -/
theorem Key.text_injective {k l : Key} (h : k.text = l.text) : k = l := by
  have hl := congrArg String.toList h
  cases k with
  | global g =>
    cases l with
    | global g' => rw [Global.text_injective h]
    | profile f id =>
      refine absurd ?_ g.underscore_notMem
      simp only [Key.text, String.toList_append] at hl
      rw [hl]
      simp
  | profile f id =>
    cases l with
    | global g =>
      refine absurd ?_ g.underscore_notMem
      simp only [Key.text, String.toList_append] at hl
      rw [← hl]
      simp
    | profile f' id' =>
      simp only [Key.text, String.toList_append, List.append_assoc] at hl
      obtain ⟨hf, hid⟩ := append_underscore_inj f.underscore_notMem f'.underscore_notMem
        (by simpa using hl)
      rw [Field.text_injective (String.toList_injective hf), String.toList_injective hid]

/-- The stored entries, by key text. -/
abbrev SharedPreferences := String → Option Value

namespace SharedPreferences

variable {s : SharedPreferences} {k l : Key} {v : Value}

def get (s : SharedPreferences) (k : Key) : Option Value := s k.text

def put (s : SharedPreferences) (k : Key) (v : Value) : SharedPreferences :=
  Function.update s k.text (some v)

def remove (s : SharedPreferences) (k : Key) : SharedPreferences :=
  Function.update s k.text none

@[simp] theorem get_put : (s.put k v).get l = if l = k then some v else s.get l := by
  unfold get put
  by_cases h : l = k
  · simp [h]
  · rw [if_neg h, Function.update_of_ne (fun he => h (Key.text_injective he))]

@[simp] theorem get_remove : (s.remove k).get l = if l = k then none else s.get l := by
  unfold get remove
  by_cases h : l = k
  · simp [h]
  · rw [if_neg h, Function.update_of_ne (fun he => h (Key.text_injective he))]

def getString (s : SharedPreferences) (k : Key) (defValue : String) : String :=
  match s.get k with
  | some (.string v) => v
  | _ => defValue

def getBoolean (s : SharedPreferences) (k : Key) (defValue : Bool) : Bool :=
  match s.get k with
  | some (.boolean v) => v
  | _ => defValue

def getInt (s : SharedPreferences) (k : Key) (defValue : Int) : Int :=
  match s.get k with
  | some (.int v) => v
  | _ => defValue

def getStringSet (s : SharedPreferences) (k : Key) (defValue : StringSet) : StringSet :=
  match s.get k with
  | some (.stringSet v) => v
  | _ => defValue

def getJsonArray (s : SharedPreferences) (k : Key) : List String :=
  match s.get k with
  | some (.jsonArray v) => v
  | _ => []

variable {t : SharedPreferences}

/-- Typed reads depend on the entry under their key only. -/
theorem getString_congr (h : t.get k = s.get k) (d : String) : t.getString k d = s.getString k d := by
  unfold getString
  rw [h]

theorem getBoolean_congr (h : t.get k = s.get k) (d : Bool) :
    t.getBoolean k d = s.getBoolean k d := by
  unfold getBoolean
  rw [h]

theorem getInt_congr (h : t.get k = s.get k) (d : Int) : t.getInt k d = s.getInt k d := by
  unfold getInt
  rw [h]

theorem getStringSet_congr (h : t.get k = s.get k) (d : StringSet) :
    t.getStringSet k d = s.getStringSet k d := by
  unfold getStringSet
  rw [h]

theorem getJsonArray_congr (h : t.get k = s.get k) : t.getJsonArray k = s.getJsonArray k := by
  unfold getJsonArray
  rw [h]

theorem getString_of_get {v d : String} (h : s.get k = some (.string v)) :
    s.getString k d = v := by
  simp only [getString, h]

theorem getBoolean_of_get {v d : Bool} (h : s.get k = some (.boolean v)) :
    s.getBoolean k d = v := by
  simp only [getBoolean, h]

theorem getStringSet_of_get {v d : StringSet} (h : s.get k = some (.stringSet v)) :
    s.getStringSet k d = v := by
  simp only [getStringSet, h]

theorem getJsonArray_of_get {v : List String} (h : s.get k = some (.jsonArray v)) :
    s.getJsonArray k = v := by
  simp only [getJsonArray, h]

end SharedPreferences
end XTunnel.Profiles
