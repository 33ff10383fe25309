import FireControl.Console.Option

/-!
# Requests

What an operator asks for on the command line: one of three commands with its options, help, or the
version. The directory for log files can be given before the command or among its options, where it
wins.

## Main definitions

* `CommandName`: The commands, with their options.
* `RunOptions`, `SendTestOptions`, `ConfigOptions`, `Command`: A command with what was given for it.
* `Request`: What is asked for.
* `Request.ofArguments`: The request of a list of arguments.
-/

namespace FireControl

/-- The commands. -/
inductive CommandName where
  | run
  | sendTest
  | config
deriving DecidableEq, Repr

/-- The directory for log files. -/
def CommandOption.logDir : CommandOption :=
  ⟨"log-dir", none, .path, "LOG_DIR", "日志目录（按天滚动写入文件，同时保留终端输出）"⟩

namespace CommandName

/-- The commands in the order of the help. -/
def all : List CommandName := [.run, .sendTest, .config]

/-- The name of a command. -/
def label : CommandName → String
  | .run => "run"
  | .sendTest => "send-test"
  | .config => "config"

/-- What the help says about a command. -/
def description : CommandName → String
  | .run => "启动瞄准流水线"
  | .sendTest => "串口联调：周期性发送扫描指令"
  | .config => "打印配置"

/-- The options of a command. -/
def options : CommandName → List CommandOption
  | .run =>
    [⟨"config", some 'c', .path, "CONFIG", "配置文件（TOML）"⟩,
      ⟨"device", some 'd', .text, "DEVICE", "串口设备（覆盖配置）"⟩,
      ⟨"baud", some 'b', .word32, "BAUD", "波特率（覆盖配置）"⟩,
      ⟨"dry-run", none, .flag, "", "不打开串口，只记录要发送的指令"⟩,
      ⟨"bullet-speed", none, .single, "M_PER_S", "实测弹速（m/s），写入共享状态供瞄准线程滤波"⟩]
  | .sendTest =>
    [⟨"device", some 'd', .text, "DEVICE", "串口设备 [default: /dev/ttyUSB0]"⟩,
      ⟨"baud", some 'b', .word32, "BAUD", "波特率 [default: 115200]"⟩,
      ⟨"interval-ms", none, .word64, "INTERVAL_MS", "发送间隔（毫秒） [default: 1000]"⟩,
      ⟨"count", none, .word64, "COUNT", "发送数量（不指定时一直发送直到 Ctrl-C）"⟩,
      ⟨"dry-run", none, .flag, "", "不打开串口，只记录"⟩]
  | .config =>
    [⟨"check", some 'c', .path, "CHECK", "要校验的配置文件（不指定时打印默认配置）"⟩,
      ⟨"output", some 'o', .path, "OUTPUT", "把结果写入文件而不是标准输出"⟩]

/-- The command of a name. -/
def ofLabel? (name : String) : Option CommandName :=
  all.find? fun c => c.label = name

end CommandName

/-- How the turret is to run. -/
structure RunOptions where
  config : Option String
  /-- The device, instead of the one in the settings. -/
  device : Option String
  /-- The line speed, instead of the one in the settings. -/
  baud : Option UInt32
  dryRun : Bool
  /-- The measured bullet speed in metres per second. -/
  bulletSpeed : Option Float32
deriving DecidableEq

/-- How the test sweep is to be sent. -/
structure SendTestOptions where
  device : String
  baud : Nat
  /-- The time between two packets. -/
  interval : Nat
  /-- The number of packets. -/
  count : Nat
  dryRun : Bool
deriving DecidableEq

/-- Which settings are to be shown. -/
structure ConfigOptions where
  check : Option String
  /-- The file to write to, instead of the terminal. -/
  output : Option String
deriving DecidableEq

/-- A command with what was given for it. -/
inductive Command where
  | run (options : RunOptions)
  | sendTest (options : SendTestOptions)
  | config (options : ConfigOptions)
deriving DecidableEq

/-- The command with what was given for its options. Without a count the test sweep goes on for as
many packets as a counter of 64 bits can number. -/
def CommandName.command (given : CommandOption.Given) : CommandName → Command
  | .run =>
    .run
      { config := given.text? "config", device := given.text? "device",
        baud := (given.word? "baud").map UInt32.ofNat, dryRun := given.flag "dry-run",
        bulletSpeed := given.single? "bullet-speed" }
  | .sendTest =>
    .sendTest
      { device := (given.text? "device").getD "/dev/ttyUSB0",
        baud := (given.word? "baud").getD 115200,
        interval := (given.word? "interval-ms").getD 1000,
        count := (given.word? "count").getD (UInt64.size - 1), dryRun := given.flag "dry-run" }
  | .config => .config { check := given.text? "check", output := given.text? "output" }

/-- What an operator asks for. -/
inductive Request where
  | command (logDir : Option String) (command : Command)
  | help (topic : Option CommandName)
  | version
  | mistake
deriving DecidableEq

namespace Request

/-- The answer to an early end among the options of a topic. -/
def ofInterruption (topic : Option CommandName) : Interruption → Request
  | .mistake => .mistake
  | .help => .help topic
  | .version => .version

/-- The request for help on the topics that are named. -/
def helpOn : List String → Request
  | [] => .help none
  | [name] =>
    match CommandName.ofLabel? name with
    | some c => .help (some c)
    | none => .mistake
  | _ => .mistake

/-- The request for a command with its arguments. -/
def ofCommand (logDir : Option String) (name : CommandName) (arguments : List String) : Request :=
  match CommandOption.scan (.logDir :: name.options) false [] arguments with
  | .error e => ofInterruption (some name) e
  | .ok (_, _ :: _) => .mistake
  | .ok (given, []) => .command ((given.text? "log-dir").or logDir) (name.command given)

/-- The request of a list of arguments. -/
def ofArguments (arguments : List String) : Request :=
  match CommandOption.scan [.logDir] true [] arguments with
  | .error e => ofInterruption none e
  | .ok (_, []) => .mistake
  | .ok (given, name :: rest) =>
    if name = "help" then helpOn rest
    else
      match CommandName.ofLabel? name with
      | some c => ofCommand (given.text? "log-dir") c rest
      | none => .mistake

end Request

end FireControl
