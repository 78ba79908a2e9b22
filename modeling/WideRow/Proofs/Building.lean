import WideRow.Proofs.Slots

/-! # Building handles -/

namespace WideRow.Pool

variable {σ : Type}

/-- The ways in which building the handle of parameters ends: before the cluster is built, without
a cluster, with a cluster that gets no session and is closed, or with a handle that is stored. -/
inductive Builds (b : Backend σ) (key : Params) (p : Pool σ) : Result ClusterId × Pool σ → Prop
  | invalid {cause : ConfigError} (hconfig : SessionConfig.ofParams key = .error cause) :
      Builds b key p (.error (.invalidConfig cause), p)
  | unbuilt {config : SessionConfig} {error : ClientError} {backend : σ}
      (hconfig : SessionConfig.ofParams key = .ok config)
      (hbuild : b.build config p.backend = (.error error, backend)) :
      Builds b key p (.error (connectionFailure error), { p with backend := backend })
  | unconnected {config : SessionConfig} {error : ClientError} {between backend : σ}
      (hconfig : SessionConfig.ofParams key = .ok config)
      (hbuild : b.build config p.backend = (.ok (), between))
      (hconnect : b.connect config between = (.error error, backend)) :
      Builds b key p (.error (connectionFailure error),
        { p with
          backend := backend
          nextId := p.nextId + 1
          events := .clusterClosed p.nextId :: .built p.nextId :: p.events })
  | connected {config : SessionConfig} {between backend : σ}
      (hconfig : SessionConfig.ofParams key = .ok config)
      (hbuild : b.build config p.backend = (.ok (), between))
      (hconnect : b.connect config between = (.ok (), backend)) :
      Builds b key p (.ok p.nextId,
        { p with
          backend := backend
          nextId := p.nextId + 1
          events := .connected p.nextId :: .built p.nextId :: p.events
          handles := (p.nextId, Handle.fresh key config) :: p.handles
          cache := p.cache.store key p.nextId })

theorem builds_loadFresh (b : Backend σ) (key : Params) (p : Pool σ) :
    Builds b key p (p.loadFresh b key) := by
  unfold loadFresh buildHandle
  cases hconfig : SessionConfig.ofParams key with
  | error cause => exact .invalid hconfig
  | ok config =>
    cases hbuild : b.build config p.backend with
    | mk answer between =>
      cases answer with
      | error error =>
        simp only [hbuild]
        exact .unbuilt hconfig hbuild
      | ok _ =>
        cases hconnect : b.connect config between with
        | mk answer backend =>
          cases answer with
          | error error =>
            simp only [hbuild, hconnect]
            exact .unconnected hconfig hbuild hconnect
          | ok _ =>
            simp only [hbuild, hconnect]
            exact .connected hconfig hbuild hconnect

end WideRow.Pool
