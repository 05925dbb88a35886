import Bolina.Control.EventCursor

namespace Bolina.Control

open ListSearch Utf8

/-- The header fields of a head, behind its request line. -/
def headerFields (head : Bytes) : List Bytes := splitCrlf (head.drop (lineEnd head+2))

def isOws (b : UInt8) : Bool := b==sp || b==htab

def trimOws (value : Bytes) : Bytes := ((value.dropWhile isOws).reverse.dropWhile isOws).reverse

/-- An Authorization field of the Bearer scheme with this token. -/
structure Bears (field : Bytes) (token : FixedBytes 64) : Prop where
  name : (field.takeWhile (fun b => b≠colonByte)).map asciiLower=ascii "authorization"
  value : ∃scheme spaces,trimOws ((field.dropWhile (fun b => b≠colonByte)).drop 1)=scheme++spaces++token.toList ∧
    scheme.map asciiLower=ascii "bearer" ∧ spaces≠[] ∧ ∀b∈spaces,b=sp

/-- The head carries the token. -/
def Carries (buf : Bytes) (token : FixedBytes 64) : Prop := ∃field∈headerFields (headOf buf),Bears field token

/-- The first place of the head that reads as the needle, in whatever line and whatever
case, is followed by the token up to the next carriage return or the end of the head. -/
def FirstBearer (buf : Bytes) (token : FixedBytes 64) : Prop :=
  ∃front bearer rest,headOf buf=front++(bearer++rest) ∧ bearer.map asciiLower=bearerNeedle ∧
    (∀j < front.length,¬bearerNeedle <+: ((headOf buf).drop j).map asciiLower) ∧
    rest.takeWhile (fun b => b≠cr)=token.toList

theorem bearerOk_iff (buf : Bytes) (token : FixedBytes 64) : bearerOk buf token=true ↔ FirstBearer buf token := by
  rw [bearerOk]
  constructor
  · intro h
    cases hf : findSub bearerNeedle ((headOf buf).map asciiLower) with
    | none =>
      simp only [hf] at h
      cases h
    | some i =>
      simp only [hf] at h
      rw [Token.verify_iff] at h
      obtain ⟨hat,hmin⟩ := findSub_some hf
      have hle := findSub_le hf
      rw [List.length_map] at hle
      refine ⟨(headOf buf).take i,((headOf buf).drop i).take bearerNeedle.length,
        (headOf buf).drop (i+bearerNeedle.length),?_,?_,?_,h⟩
      · rw [← List.drop_drop,List.take_append_drop,List.take_append_drop]
      · rw [List.map_take,List.map_drop]
        exact (List.prefix_iff_eq_take.mp hat).symm
      · intro j hj hp
        rw [List.length_take] at hj
        rw [List.map_drop] at hp
        exact hmin j (by omega) hp
  · intro h
    obtain ⟨front,bearer,rest,hhead,hbearer,hmin,hrest⟩ := h
    have hlen : bearer.length=bearerNeedle.length := by rw [← hbearer,List.length_map]
    have hf : findSub bearerNeedle ((headOf buf).map asciiLower)=some front.length := by
      rw [findSub_eq_some]
      constructor
      · rw [← List.map_drop,hhead,List.drop_left,List.map_append,hbearer]
        exact List.prefix_append _ _
      · intro j hj hp
        rw [← List.map_drop] at hp
        exact hmin j hj hp
    have hdrop : (headOf buf).drop (front.length+bearerNeedle.length)=rest := by
      rw [hhead,← List.drop_drop,List.drop_left,← hlen,List.drop_left]
    simp only [hf,hdrop]
    exact (Token.verify_iff _ token).mpr hrest

/-- A GET of the health check. -/
def Healthz (req : Request) (buf : Bytes) : Prop := req.method=.Get ∧ req.target buf=healthzPath

/-- What the gate owes to a request. -/
structure Gated (buf : Bytes) (req : Request) (ctx : RouteCtx) : Prop where
  healthz : Healthz req buf → (routeHttp buf ctx).1.1=200
  refused : ¬Healthz req buf → (∀token,ctx.token=some token → ¬Carries buf token) →
    (routeHttp buf ctx).1.1=403 ∧ (routeHttp buf ctx).2.intents=ctx.intents ∧
      (routeHttp buf ctx).2.ring=ctx.ring ∧ (routeHttp buf ctx).2.metrics=ctx.metrics
  routed : ¬Healthz req buf → ∀token,ctx.token=some token → Carries buf token →
    routeHttp buf ctx=route req buf ctx

theorem errorReply_status (e : ApiError) : (errorReply e).1≠403 := by
  cases e with
  | Intent e => cases e <;> decide
  | Resolve e =>
    have hstatus : (errorReply (.Resolve e)).1=422 := rfl
    rw [hstatus]
    decide
  | BadRequest => decide
  | NotFound => decide
  | MethodNotAllowed => decide
  | UnsupportedMediaType => decide
  | UnprocessableIntent => decide

/-- No route answers as the gate does. -/
theorem route_status (req : Request) (buf : Bytes) (ctx : RouteCtx) : (route req buf ctx).1.1≠403 := by
  rw [route]
  split_ifs
  · simp
  · rw [routePost]
    dsimp only
    split
    · decide
    · decide
    · exact errorReply_status _
  · rw [routeGetIntent]
    split
    · exact errorReply_status _
    · split
      · exact errorReply_status _
      · simp
  · simp
  · simp
  · simp

section Gate

variable {buf : Bytes} {req : Request} {ctx : RouteCtx}

theorem routeHttp_minted {token : FixedBytes 64} (hp : parse buf=.ok req) (ht : ctx.token=some token) :
    (FirstBearer buf token → routeHttp buf ctx=route req buf ctx) ∧
      (¬FirstBearer buf token → routeHttp buf ctx=(forbidden,{ ctx with authRefused := ctx.authRefused+1 })) := by
  constructor
  · intro h
    exact routeHttp_authorised hp ⟨token,ht,(bearerOk_iff buf token).mpr h⟩
  · intro h
    have hb : bearerOk buf token=false := by
      rw [Bool.eq_false_iff]
      exact fun hok => h ((bearerOk_iff buf token).mp hok)
    simp only [routeHttp,hp,ht,hb,if_true]

theorem routeHttp_unminted (hp : parse buf=.ok req) (ht : ctx.token=none) :
    (req.target buf=healthzPath → routeHttp buf ctx=route req buf ctx) ∧
      (req.target buf≠healthzPath → routeHttp buf ctx=(forbidden,ctx)) := by
  constructor
  · intro h
    simp [routeHttp,hp,ht,h]
  · intro h
    simp [routeHttp,hp,ht,h]

theorem route_healthz (h : Healthz req buf) : (route req buf ctx).1.1=200 := by
  rw [route]
  simp only [h.1,h.2,and_self,if_true]

/-- Where the gate keeps its word and there is a token, the first bearer text tells what
the fields tell. -/
theorem Gated.minted (h : Gated buf req ctx) (hp : parse buf=.ok req) {token : FixedBytes 64}
    (ht : ctx.token=some token) :
    (Healthz req buf → FirstBearer buf token) ∧ (¬Healthz req buf → (FirstBearer buf token ↔ Carries buf token)) := by
  obtain ⟨haccept,hrefuse⟩ := routeHttp_minted hp ht
  constructor
  · intro hhealthz
    by_contra hno
    have hstatus := h.healthz hhealthz
    rw [hrefuse hno] at hstatus
    cases hstatus
  · intro hother
    constructor
    · intro hfirst
      by_contra hno
      have hnone : ∀token',ctx.token=some token' → ¬Carries buf token' := by
        intro token' ht'
        rw [ht,Option.some.injEq] at ht'
        rw [← ht']
        exact hno
      have hstatus := (h.refused hother hnone).1
      rw [haccept hfirst] at hstatus
      exact route_status req buf ctx hstatus
    · intro hcarries
      by_contra hno
      have hroute := h.routed hother token ht hcarries
      rw [hrefuse hno] at hroute
      exact route_status req buf ctx (by rw [← hroute]; rfl)

theorem Gated.unminted (h : Gated buf req ctx) (hp : parse buf=.ok req) (ht : ctx.token=none) :
    ¬(req.method=.Post ∧ req.target buf=healthzPath) := by
  intro hpost
  have hother : ¬Healthz req buf := by
    intro hh
    rw [hh.1] at hpost
    exact absurd hpost.1 (by decide)
  have hnone : ∀token,ctx.token=some token → ¬Carries buf token := by
    intro token ht'
    rw [ht] at ht'
    cases ht'
  have hstatus := (h.refused hother hnone).1
  rw [(routeHttp_unminted hp ht).1 hpost.2] at hstatus
  exact route_status req buf ctx hstatus

theorem gated_minted (hp : parse buf=.ok req) {token : FixedBytes 64} (ht : ctx.token=some token)
    (hhealth : Healthz req buf → FirstBearer buf token)
    (hrest : ¬Healthz req buf → (FirstBearer buf token ↔ Carries buf token)) : Gated buf req ctx := by
  obtain ⟨haccept,hrefuse⟩ := routeHttp_minted hp ht
  constructor
  · intro hhealthz
    rw [haccept (hhealth hhealthz)]
    exact route_healthz hhealthz
  · intro hother hnone
    have hno : ¬FirstBearer buf token := fun hf => hnone token ht ((hrest hother).mp hf)
    rw [hrefuse hno]
    exact ⟨rfl,rfl,rfl,rfl⟩
  · intro hother token' ht' hcarries
    rw [ht,Option.some.injEq] at ht'
    rw [← ht'] at hcarries
    exact haccept ((hrest hother).mpr hcarries)

theorem gated_unminted (hp : parse buf=.ok req) (ht : ctx.token=none)
    (hpost : ¬(req.method=.Post ∧ req.target buf=healthzPath)) : Gated buf req ctx := by
  obtain ⟨hopen,hshut⟩ := routeHttp_unminted hp ht
  constructor
  · intro hhealthz
    rw [hopen hhealthz.2]
    exact route_healthz hhealthz
  · intro hother _
    have hpath : req.target buf≠healthzPath := by
      intro hpath
      cases hm : req.method with
      | Get => exact hother ⟨hm,hpath⟩
      | Post => exact hpost ⟨hm,hpath⟩
    rw [hshut hpath]
    exact ⟨rfl,rfl,rfl,rfl⟩
  · intro hother token ht'
    rw [ht] at ht'
    cases ht'

/-- The gate keeps its word exactly when the first bearer text of the head tells what its
fields tell: always for the health check too once there is a token, and without one no
POST is sent there. -/
theorem gated_iff (buf : Bytes) (req : Request) (ctx : RouteCtx) (hp : parse buf=.ok req) :
    Gated buf req ctx ↔
      (∀token,ctx.token=some token →
        (Healthz req buf → FirstBearer buf token) ∧
        (¬Healthz req buf → (FirstBearer buf token ↔ Carries buf token))) ∧
      (ctx.token=none → ¬(req.method=.Post ∧ req.target buf=healthzPath)) := by
  constructor
  · intro h
    exact ⟨fun token ht => h.minted hp ht,h.unminted hp⟩
  · intro h
    obtain ⟨hminted,hunminted⟩ := h
    cases ht : ctx.token with
    | some token =>
      obtain ⟨hhealth,hrest⟩ := hminted token ht
      exact gated_minted hp ht hhealth hrest
    | none => exact gated_unminted hp ht (hunminted ht)

end Gate

/-- A monitor's request: no field at all. -/
def healthCheck : Bytes := getLine healthzPath++terminator

/-- The token under another field's name. -/
def xAuthorization : Bytes :=
  getLine metricsPath++(crlf++(ascii "X-Authorization: Bearer "++sampleToken.toList++terminator))

theorem gated_sample :
    Gated (sampleGet eventsPath) ⟨.Get,4,14,none,0,115⟩ sampleCtx ↔
      (∀token,sampleCtx.token=some token →
        (Healthz ⟨.Get,4,14,none,0,115⟩ (sampleGet eventsPath) → FirstBearer (sampleGet eventsPath) token) ∧
        (¬Healthz ⟨.Get,4,14,none,0,115⟩ (sampleGet eventsPath) →
          (FirstBearer (sampleGet eventsPath) token ↔ Carries (sampleGet eventsPath) token))) ∧
      (sampleCtx.token=none →
        ¬(Method.Get=.Post ∧ Request.target ⟨.Get,4,14,none,0,115⟩ (sampleGet eventsPath)=healthzPath)) :=
  gated_iff (sampleGet eventsPath) ⟨.Get,4,14,none,0,115⟩ sampleCtx sampleGet_asks.2.parsed

/-- With a token the health check is refused, and the token passes under any name that ends
in the needle's. -/
theorem gated_fails :
    parse healthCheck=.ok ⟨.Get,4,12,none,0,25⟩ ∧
      ¬Gated healthCheck ⟨.Get,4,12,none,0,25⟩ sampleCtx ∧ (routeHttp healthCheck sampleCtx).1=forbidden ∧
      (routeHttp xAuthorization sampleCtx).1.1=200 ∧ ¬Carries xAuthorization sampleToken := by
  have hparsed : parse healthCheck=.ok ⟨.Get,4,12,none,0,25⟩ := by decide +kernel
  have hrefused : (routeHttp healthCheck sampleCtx).1=forbidden := by decide +kernel
  have hhealthz : Healthz ⟨.Get,4,12,none,0,25⟩ healthCheck := ⟨rfl,by decide +kernel⟩
  refine ⟨hparsed,?_,hrefused,by decide +kernel,?_⟩
  · intro h
    have hstatus := h.healthz hhealthz
    rw [hrefused] at hstatus
    cases hstatus
  · intro h
    obtain ⟨field,hfield,hbears⟩ := h
    have hnames : ∀field∈headerFields (headOf xAuthorization),
        (field.takeWhile (fun b => b≠colonByte)).map asciiLower≠ascii "authorization" := by decide +kernel
    exact hnames field hfield hbears.name

end Bolina.Control
