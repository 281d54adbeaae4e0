/-!
# The control page

The page that a browser shows: cards with the state of the car, sliders that send
commands, and buttons for calibration and stabilization.
-/

namespace ModelCar.Web.Page

/-! ### Building blocks -/

/-- Text in braces. -/
def braced (body : String) : String :=
  "\x7b" ++ body ++ "\x7d"

/-- An opening tag with its attributes. -/
def opening (name : String) (attributes : List (String × String)) : String :=
  "<" ++ name
    ++ String.join (attributes.map fun (key, value) => " " ++ key ++ "=\"" ++ value ++ "\"")
    ++ ">"

/-- An element with its attributes and its content. -/
def element (name : String) (attributes : List (String × String)) (content : List String) :
    String :=
  opening name attributes ++ String.join content ++ "</" ++ name ++ ">"

/-- A block of some classes. -/
def div (classes : String) : List String → String :=
  element "div" [("class", classes)]

/-- A card with a label. -/
def card (title : String) (content : List String) : String :=
  div "card" (div "label" [title] :: content)

/-- A card that shows a value. -/
def valueCard (title id : String) : String :=
  card title [element "div" [("class", "value"), ("id", id)] ["-"]]

/-- The call that sends a message with some fields. -/
def sending (fields : String) : String :=
  "send(" ++ braced fields ++ ")"

/-- A button that runs a script. -/
def button (action caption : String) : String :=
  element "button" [("onclick", action)] [caption]

/-- A slider from one end to the other. -/
def slider (id : String) : String :=
  opening "input" [("id", id), ("type", "range"), ("min", "-100"), ("max", "100"),
    ("value", "0")]

/-- A function of the script. -/
def function (head : String) (statements : List String) : String :=
  "function " ++ head ++ braced (String.join statements)

/-- The element with a name, in the script. -/
def byId (id : String) : String :=
  "document.getElementById('" ++ id ++ "')"

/-- Sets a property of the element with a name, in the script. -/
def set (id property value : String) : String :=
  byId id ++ "." ++ property ++ "=" ++ value ++ ";"

/-! ### The page -/

/-- The style of the page: selectors with their declarations. -/
def style : List (String × String) :=
  [(":root", "--bg:#0f172a;--panel:#0b1220;--text:#f8fafc;--muted:#94a3b8;"
      ++ "--accent:#f59e0b;--stroke:rgba(148,163,184,0.25);"),
    ("*", "box-sizing:border-box"),
    ("body", "margin:0;font-family:sans-serif;color:var(--text);"
      ++ "background:linear-gradient(180deg,#0b1220,#111827);"),
    (".screen", "padding:20px;display:flex;flex-direction:column;gap:16px;"),
    (".card", "padding:14px;border-radius:14px;border:1px solid var(--stroke);"
      ++ "background:rgba(15,23,42,0.6);"),
    (".grid", "display:grid;gap:12px;"
      ++ "grid-template-columns:repeat(auto-fit,minmax(160px,1fr));"),
    (".label", "font-size:12px;color:var(--muted);text-transform:uppercase;"
      ++ "letter-spacing:1px;"),
    (".value", "font-size:24px;font-weight:700;margin-top:4px;"),
    ("input[type=range]", "width:100%"),
    ("button", "padding:10px 14px;border-radius:12px;border:1px solid var(--stroke);"
      ++ "background:#111827;color:var(--text);font-weight:600;"),
    ("button.primary", "background:var(--accent);color:#0b1220;border-color:transparent;"),
    (".dot", "display:inline-block;width:8px;height:8px;border-radius:50%;"
      ++ "margin-right:6px;"),
    (".ok", "background:#22c55e"),
    (".bad", "background:#ef4444")]

/-- The head of the page. -/
def head : String :=
  element "head" []
    [opening "meta" [("charset", "utf-8")],
      opening "meta" [("name", "viewport"), ("content", "width=device-width,initial-scale=1")],
      element "title" [] ["RC Vehicle"],
      element "style" []
        (style.map fun (selector, declarations) => selector ++ braced declarations)]

/-- A dot that shows whether a link is up. -/
def linkDot (id : String) : String :=
  element "span" [("id", id), ("class", "dot bad")] []

/-- The card of the links. -/
def linkCard : String :=
  card "Link"
    [div "value" [linkDot "rc-dot", "RC ", linkDot "wifi-dot", "Wi-Fi"],
      element "div" [("id", "failsafe"), ("class", "label")] ["failsafe: -"]]

/-- The card of the sliders. -/
def driveCard : String :=
  card "Throttle"
    [slider "throttle", div "label" ["Steering"], slider "steering",
      button "stopAll()" "Stop"]

/-- The call that starts a calibration. -/
def calibrating (mode : String) : String :=
  sending ("type:'calibrate_imu',mode:'" ++ mode ++ "'")

/-- The card of the calibration. -/
def calibrationCard : String :=
  card "Calibration"
    [element "div" [("id", "calib"), ("class", "value")] ["-"],
      button (calibrating "gyro") "Gyro", " ",
      element "button" [("class", "primary"), ("onclick", calibrating "full")] ["Full"], " ",
      button (calibrating "forward") "Forward"]

/-- The card of the stabilization. -/
def stabilizationCard : String :=
  card "Stabilization"
    [element "label" []
        [opening "input" [("id", "stab-en"), ("type", "checkbox"),
            ("onchange", sending "type:'set_stab_config',enabled:this.checked")],
          " enabled"],
      " ",
      element "select" [("id", "stab-mode"),
          ("onchange", sending "type:'set_stab_config',mode:Number(this.value)")]
        ([("0", "normal"), ("1", "sport"), ("2", "drift")].map fun (value, name) =>
          element "option" [("value", value)] [name])]

/-- The screen of the page. -/
def screen : String :=
  element "section" [("class", "screen")]
    [element "h2" [] ["RC Vehicle"],
      div "grid"
        [linkCard, valueCard "Orientation" "orient", valueCard "Yaw rate" "yaw-rate",
          valueCard "Output" "act"],
      driveCard, calibrationCard, stabilizationCard]

/-- The script of the page: it keeps a connection, shows what comes in, and sends the
positions of the sliders twenty times a second. -/
def script : List String :=
  ["let ws;",
    function "connect()"
      ["ws=new WebSocket('ws://'+location.host+'/ws');",
        "ws.onopen=()=>" ++ sending "type:'get_stab_config'" ++ ";",
        "ws.onclose=()=>setTimeout(connect,1000);",
        "ws.onmessage=(e)=>"
          ++ braced ("const m=JSON.parse(e.data);if(m.type==='telem')telem(m);"
            ++ "else if(m.type==='stab_config')" ++ braced "stab(m);"
            ++ "else if(m.type==='set_stab_config_ack'&&m.ok)" ++ braced "stab(m.config);")
          ++ ";"],
    function "send(o)" ["if(ws&&ws.readyState===1)ws.send(JSON.stringify(o));"],
    function "dot(id,ok)"
      ["document.getElementById(id).className='dot '+(ok?'ok':'bad');"],
    function "stab(c)"
      [set "stab-en" "checked" "c.enabled", set "stab-mode" "value" "c.mode"],
    function "telem(m)"
      ["dot('rc-dot',m.link.rc_ok);dot('wifi-dot',m.link.wifi_ok);",
        set "failsafe" "textContent" "'failsafe: '+(m.link.failsafe?'ACTIVE':'off')",
        set "act" "textContent"
          "m.act.throttle.toFixed(2)+' / '+m.act.steering.toFixed(2)",
        "if(m.imu)"
          ++ braced ("const o=m.imu.orientation;"
            ++ set "orient" "textContent"
              "o.pitch.toFixed(1)+' / '+o.roll.toFixed(1)+' / '+o.yaw.toFixed(1)"
            ++ set "yaw-rate" "textContent" "m.imu.gyro_z_filtered.toFixed(1)+' dps'"),
        "if(m.calib)"
          ++ braced (set "calib" "textContent"
            "m.calib.status+' (stage '+m.calib.stage+')'")],
    function "stopAll()" [set "throttle" "value" "0", set "steering" "value" "0"],
    "setInterval(()=>"
      ++ braced (sending ("type:'cmd',throttle:" ++ byId "throttle" ++ ".value/100,steering:"
        ++ byId "steering" ++ ".value/100") ++ ";")
      ++ ",50);",
    "connect();"]

/-- The whole page. -/
def html : String :=
  "<!doctype html>"
    ++ element "html" [] [head, element "body" [] [screen, element "script" [] script]]

end ModelCar.Web.Page
