import Jumpcut.CommandLine.Parse
import Jumpcut.CommandLine.Editor
import Jumpcut.CommandLine.Tools
import Jumpcut.Options
import Jumpcut.Workspace.Console

namespace Jumpcut

open CommandLine

def CommandLine.Program.ask (p : Program) (args : List String) : Session Values := do
  let w ← get
  match ← Console.plain.check (p.parse w.columns args) with
  | .values vs => return vs
  | .page text => do
    Session.write text
    throw (.exit .none)

def CommandLine.choose : List String → Option String × Program × List String
  | [] => (none, editor, [])
  | arg :: args =>
    match tools.lookup arg with
    | some p => (some arg, p, args)
    | none => (none, editor, arg :: args)

def Options.ofValues (vs : Values) : Options :=
  { add := vs.texts "add"
    source := vs.texts "source"
    downloader := vs.text "yt_dlp_location"
    downloadFormat := vs.text? "download_format"
    outputFormat := vs.text? "output_format"
    downloadExtras := vs.text? "yt_dlp_extras"
    videoCodec := vs.text "video_codec"
    audioCodec := vs.text "audio_codec"
    videoBitrate := vs.text "video_bitrate"
    audioBitrate := vs.text "audio_bitrate"
    videoQuality := vs.text "video_quality_scale"
    scale := (vs.number? "scale").getD (.float 1.0)
    extras := vs.text? "extras"
    noSeek := vs.flag "no_seek"
    cutOut := vs.ranges "cut_out"
    addIn := vs.ranges "add_in"
    markLoud := vs.ranges "mark_as_loud"
    markSilent := vs.ranges "mark_as_silent"
    speedRanges := (vs.many "set_speed_for_range").filterMap fun
      | .speedRange s a b => some (s, a, b)
      | _ => none
    frameRate := vs.rat? "frame_rate"
    sampleRate := vs.int? "sample_rate"
    resolution := match vs.get "resolution" with
      | .size w h => some (w, h)
      | _ => none
    background := vs.text "background"
    edit := vs.text "edit_based_on"
    keepTracks := vs.flag "keep_tracks_separate"
    exportAs := vs.text? "export"
    player := vs.text? "player"
    noOpen := vs.flag "no_open"
    tempDir := vs.text? "temp_dir"
    transcoder := vs.text? "ffmpeg_location"
    ownTranscoder := vs.flag "my_ffmpeg"
    progress := vs.text "progress"
    version := vs.flag "version"
    debug := vs.flag "debug"
    showTranscoder := vs.flag "show_ffmpeg_debug"
    quiet := vs.flag "quiet"
    preview := vs.flag "preview"
    margin := match vs.get "margin" with
      | .margin a b => (a, b)
      | _ => (.ticks 0, .ticks 0)
    silentSpeed := (vs.number? "silent_speed").getD (.float 99999.0)
    videoSpeed := (vs.number? "video_speed").getD (.float 1.0)
    minClip := vs.length "min_clip_length"
    minCut := vs.length "min_cut_length"
    outputFile := vs.text? "output_file"
    help := vs.flag "help"
    inputs := vs.texts "input" }

end Jumpcut
