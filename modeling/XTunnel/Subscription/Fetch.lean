import XTunnel.Profiles.Sync
import XTunnel.Subscription.TryBase64

/-! `SubscriptionManager.fetchAndUpdate`: the download with its redirects, and its callback. -/
namespace XTunnel.Subscription.Fetch

open Profiles Net

/-- A body as the reader meets it; one that never ends does not fit in the memory either. -/
inductive Body
  | text (s : String)
  | broken (message : Option String)
  | tooLong

/-- What a request comes to: an exception, or an answer behind the redirects that the connection
follows by itself. -/
inductive Response
  | failed (message : Option String)
  | answered (respCode : Int) (location : Option String) (body : Body)

/-- Any behaviour of the servers: the response to the last of the URLs requested so far. -/
abbrev Servers := List String → Response

/-- `fetchAndUpdate` catches exceptions, and no errors of the virtual machine. -/
inductive Thrown
  | exception (message : Option String)
  | error

namespace Response

/-- Where `downloadUrl` goes on. -/
def redirectUrl : Response → Option String
  | failed _ => none
  | answered respCode location _ => if 300 ≤ respCode ∧ respCode < 400 then location else none

/-- The body with its lines ended by line feeds. -/
def readBody : Body → Except Thrown String
  | .text s => .ok (String.ofList ((readLines s.toList).flatMap fun line => line ++ ['\n']))
  | .broken message => .error (.exception message)
  | .tooLong => .error .error

/-- The rest of `downloadUrl`, without a redirect. -/
def content : Response → Except Thrown String
  | failed message => .error (.exception message)
  | answered respCode _ body =>
    if respCode ≠ 200 then .error (.exception (some ("HTTP " ++ toString respCode)))
    else readBody body

end Response

/-- What the phone supplies. `badUrl` is the message with which `new URL`, or the cast of its
connection, fails; `stack` is how deep calls of `downloadUrl` can nest. -/
structure Device where
  hash : HashOrder
  base64 : Base64.Decoder
  utf8 : Utf8
  locale : Locale
  uuid : Nat → String
  currentTimeMillis : Int
  badUrl : String → Option String
  stack : Nat

/-- The response to `url` after other requests. -/
def respond (d : Device) (servers : Servers) (requested : List String) (url : String) : Response :=
  match d.badUrl url with
  | some message => .failed (some message)
  | none => servers (requested ++ [url])

/-- The result and the URLs tried. A call more than the stack has room for is an error. -/
def downloadUrl (d : Device) (servers : Servers) : Nat → List String → String →
    Except Thrown String × List String
  | 0, requested, _ => (.error .error, requested)
  | stack + 1, requested, urlStr =>
    let r := respond d servers requested urlStr
    match r.redirectUrl with
    | some redirectUrl => downloadUrl d servers stack (requested ++ [urlStr]) redirectUrl
    | none => (r.content, requested ++ [urlStr])

structure Stored where
  prefs : Preferences
  subLastSyncTime : Int

inductive Call
  | onSuccess (result : ApplyResult)
  | onError (message : String)

structure Update where
  calls : List Call
  requested : List String
  stored : Stored

/-- The part of `fetchAndUpdate` behind the download. -/
def updateFrom (d : Device) (s : Stored) (requested : List String) (content : String) : Update :=
  if isBlank content then ⟨[.onError "获取订阅内容为空"], requested, s⟩
  else
    let nodes := parseIniNodes d.locale (tryBase64Decode d.base64 d.utf8 (Profiles.trim content))
    if nodes.isEmpty then ⟨[.onError "未解析到有效节点配置"], requested, s⟩
    else
      let result := applySubNodes d.hash s.prefs nodes d.uuid
      ⟨[.onSuccess result.2], requested, ⟨result.1, d.currentTimeMillis⟩⟩

def fetchAndUpdate (d : Device) (servers : Servers) (s : Stored) (subUrl : Option String) :
    Update :=
  if subUrl.all isBlank then ⟨[.onError "订阅地址为空"], [], s⟩
  else
    match downloadUrl d servers d.stack [] (Profiles.trim (subUrl.getD "")) with
    | (.ok content, requested) => updateFrom d s requested content
    | (.error (.exception message), requested) =>
      ⟨[.onError ("同步失败: " ++ message.getD "null")], requested, s⟩
    | (.error .error, requested) => ⟨[], requested, s⟩

/-- A bounded number of requests and one callback; behind `onError` all is as before. -/
structure Ends (d : Device) (s : Stored) (u : Update) : Prop where
  finite : u.requested.length ≤ d.stack
  once : u.calls.length = 1
  unchanged : ∀ message, Call.onError message ∈ u.calls → u.stored = s

/-- `n` redirects lead to the response `r`, which is none. -/
inductive Leads (d : Device) (servers : Servers) : List String → String → Nat → Response → Prop
  | here {requested : List String} {url : String} :
      (respond d servers requested url).redirectUrl = none →
      Leads d servers requested url 0 (respond d servers requested url)
  | redirect {requested : List String} {url redirectUrl : String} {n : Nat} {r : Response} :
      (respond d servers requested url).redirectUrl = some redirectUrl →
      Leads d servers (requested ++ [url]) redirectUrl n r → Leads d servers requested url (n + 1) r

/-- The body fits in the memory if it is read at all. -/
def Response.Fits : Response → Prop
  | failed _ => True
  | answered respCode _ body => respCode = 200 → body ≠ .tooLong

/-- The redirects end within the stack, at a response that fits. -/
def Settles (d : Device) (stack : Nat) (servers : Servers) (requested : List String)
    (url : String) : Prop :=
  ∃ n r, n < stack ∧ Leads d servers requested url n r ∧ r.Fits

variable {d : Device} {servers : Servers} {s : Stored} {subUrl : Option String}
  {url redirectUrl content : String} {requested : List String} {stack n : Nat} {r : Response}

theorem downloadUrl_here (h : (respond d servers requested url).redirectUrl = none) :
    downloadUrl d servers (stack + 1) requested url =
      ((respond d servers requested url).content, requested ++ [url]) := by
  rw [downloadUrl]
  split
  · rename_i u hu
    rw [h] at hu
    cases hu
  · rfl

theorem downloadUrl_redirect
    (h : (respond d servers requested url).redirectUrl = some redirectUrl) :
    downloadUrl d servers (stack + 1) requested url =
      downloadUrl d servers stack (requested ++ [url]) redirectUrl := by
  rw [downloadUrl]
  split
  · rename_i u hu
    rw [h] at hu
    cases hu
    rfl
  · rename_i hu
    rw [h] at hu
    cases hu

/-- Every call makes one request. -/
theorem length_requested :
    (downloadUrl d servers stack requested url).2.length ≤ requested.length + stack := by
  induction stack generalizing requested url with
  | zero => exact Nat.le_refl _
  | succ stack ih =>
    cases h : (respond d servers requested url).redirectUrl with
    | none =>
      rw [downloadUrl_here h, List.length_append, List.length_singleton]
      omega
    | some redirectUrl =>
      rw [downloadUrl_redirect h]
      have hnext : (downloadUrl d servers stack (requested ++ [url]) redirectUrl).2.length ≤
          (requested ++ [url]).length + stack := ih
      rw [List.length_append, List.length_singleton] at hnext
      omega

theorem settles_zero : ¬ Settles d 0 servers requested url := by
  rintro ⟨n, r, hn, -⟩
  exact Nat.not_lt_zero n hn

theorem settles_here (h : (respond d servers requested url).redirectUrl = none) :
    Settles d (stack + 1) servers requested url ↔ (respond d servers requested url).Fits := by
  constructor
  · rintro ⟨n, r, -, hl, hr⟩
    cases hl with
    | here => exact hr
    | redirect hu =>
      rw [h] at hu
      cases hu
  · intro hr
    exact ⟨0, _, Nat.succ_pos stack, .here h, hr⟩

theorem settles_redirect (h : (respond d servers requested url).redirectUrl = some redirectUrl) :
    Settles d (stack + 1) servers requested url ↔
      Settles d stack servers (requested ++ [url]) redirectUrl := by
  constructor
  · rintro ⟨n, r, hn, hl, hr⟩
    cases hl with
    | here hu =>
      rw [h] at hu
      cases hu
    | redirect hu hl =>
      rw [h] at hu
      cases hu
      exact ⟨_, r, Nat.lt_of_succ_lt_succ hn, hl, hr⟩
  · rintro ⟨n, r, hn, hl, hr⟩
    exact ⟨n + 1, r, Nat.succ_lt_succ hn, .redirect h hl, hr⟩

theorem content_error_iff : r.content = .error .error ↔ ¬ r.Fits := by
  cases r with
  | failed message => simp [Response.content, Response.Fits]
  | answered respCode location body =>
    by_cases hc : respCode = 200
    · cases body <;> simp [Response.content, Response.Fits, Response.readBody, hc]
    · simp [Response.content, Response.Fits, hc]

/-- The induction is on the calls that the stack has room for. -/
theorem downloadUrl_error_iff : (downloadUrl d servers stack requested url).1 = .error .error ↔
    ¬ Settles d stack servers requested url := by
  induction stack generalizing requested url with
  | zero => exact iff_of_true rfl settles_zero
  | succ stack ih =>
    cases h : (respond d servers requested url).redirectUrl with
    | none => rw [downloadUrl_here h, settles_here h, content_error_iff]
    | some redirectUrl => rw [downloadUrl_redirect h, settles_redirect h, ih]

theorem updateFrom_ends (hlen : requested.length ≤ d.stack) :
    Ends d s (updateFrom d s requested content) := by
  unfold updateFrom
  split
  · exact ⟨hlen, rfl, fun _ _ => rfl⟩
  · dsimp only
    split
    · exact ⟨hlen, rfl, fun _ _ => rfl⟩
    · exact ⟨hlen, rfl, by simp⟩

theorem fetchAndUpdate_blank (h : subUrl.all isBlank = true) :
    Ends d s (fetchAndUpdate d servers s subUrl) := by
  rw [fetchAndUpdate, if_pos h]
  exact ⟨Nat.zero_le _, rfl, fun _ _ => rfl⟩

theorem fetchAndUpdate_url (h : ¬ subUrl.all isBlank = true) :
    Ends d s (fetchAndUpdate d servers s subUrl) ↔
      Settles d d.stack servers [] (Profiles.trim (subUrl.getD "")) := by
  rw [fetchAndUpdate, if_neg h]
  generalize Profiles.trim (subUrl.getD "") = url
  have hlen : (downloadUrl d servers d.stack [] url).2.length ≤ [].length + d.stack :=
    length_requested
  have herror : (downloadUrl d servers d.stack [] url).1 = .error .error ↔
      ¬ Settles d d.stack servers [] url := downloadUrl_error_iff
  rw [List.length_nil, Nat.zero_add] at hlen
  split
  · rename_i content requested heq
    rw [heq] at hlen herror
    exact iff_of_true (updateFrom_ends hlen) (by simpa using herror)
  · rename_i message requested heq
    rw [heq] at hlen herror
    exact iff_of_true ⟨hlen, rfl, fun _ _ => rfl⟩ (by simpa using herror)
  · rename_i requested heq
    rw [heq] at herror
    refine iff_of_false ?_ (herror.mp rfl)
    intro hends
    exact absurd hends.once (by simp)

/-- There is one callback exactly when the redirects end within the stack, at a response that fits
in the memory. -/
theorem fetchAndUpdate_ends_iff : Ends d s (fetchAndUpdate d servers s subUrl) ↔
    subUrl.all isBlank = true ∨
      Settles d d.stack servers [] (Profiles.trim (subUrl.getD "")) := by
  by_cases h : subUrl.all isBlank = true
  · exact iff_of_true (fetchAndUpdate_blank h) (Or.inl h)
  · rw [fetchAndUpdate_url h, or_iff_right h]

/-- Two servers that redirect to each other, from `http` to `https` and back. -/
def cycle : Servers := fun requested =>
  .answered 302 (some (if requested.length % 2 = 0 then "http://a" else "https://a")) (.text "")

def phone (stack : Nat) : Device :=
  { hash := newestFirst
    base64 := Base64.android
    utf8 := utf8Charset
    locale := asciiLocale false
    uuid := fun i => toString i
    currentTimeMillis := 0
    badUrl := fun url =>
      if url.toList.take 4 = "http".toList then none else some ("no protocol: " ++ url)
    stack }

/-- Both addresses can be requested, and neither request is answered without a redirect. -/
theorem cycle_endless (hurl : url = "http://a" ∨ url = "https://a") :
    ¬ Leads (phone stack) cycle requested url n r := by
  have hgood : ∀ url, url = "http://a" ∨ url = "https://a" → ∀ requested,
      respond (phone stack) cycle requested url = cycle (requested ++ [url]) := by
    rintro _ (rfl | rfl) requested <;> rfl
  intro h
  induction h with
  | here h =>
    rw [hgood _ hurl] at h
    cases h
  | redirect h _ ih =>
    rw [hgood _ hurl] at h
    cases h
    apply ih
    split
    · exact Or.inl rfl
    · exact Or.inr rfl

/-- However deep the calls can nest, the cycle ends without a callback. -/
theorem cycle_without_callback : ¬ ∃ stack, Ends (phone stack) ⟨⟨fun _ => none, "default"⟩, 0⟩
    (fetchAndUpdate (phone stack) cycle ⟨⟨fun _ => none, "default"⟩, 0⟩ (some "http://a")) := by
  rintro ⟨stack, h⟩
  rw [fetchAndUpdate_url (by decide)] at h
  obtain ⟨n, r, -, hl, -⟩ := h
  exact cycle_endless (Or.inl (by decide)) hl

end XTunnel.Subscription.Fetch
